import TemplateFolding.Proofs.CompleteSearch
import TemplateFolding.Proofs.WatchedCursor

/-!
# Foldings made in a batch

The declarations of a buffer are folded in the order in which they stand, so each folding is made
behind the ones made before. Its folds start after them and can neither hide nor reveal them, and
the folding is made on one row, because the line endings inside of it are folded first. It starts
out shown, and highlighted exactly if the cursor is inside.
-/

namespace TemplateFolding

open Text Point

/-! ## Declarations are firm -/

/-- A declaration starts with a letter and ends with a bracket, so its text is firm. -/
lemma Declaration.firm_source {t : Text} {d : Declaration} (h : parse? t = some d) :
    d.source.Firm := by
  obtain ⟨hsplit, hlast⟩ := parse?_source h
  have hne : d.source ≠ [] := by
    intro hnil
    simp [hnil] at hlast
  refine ⟨hne, ?_, by simp [hlast]⟩
  obtain ⟨after, hafter⟩ := keyword_prefix_of_parse? h
  have hhead : t.head? = some 't' := by
    rw [← hafter, List.head?_append_of_ne_nil _ (by decide)]
    decide
  rw [hsplit, List.head?_append_of_ne_nil _ hne] at hhead
  simp [hhead]

/-- A declaration stands where it is found. -/
lemma Occurrence.standsAt {t : Text} {r : Range} (h : r ∈ (all t).map (·.range)) :
    ∃ x : Text, x.Firm ∧ t.StandsAt x r := by
  rw [all, List.map_map] at h
  obtain ⟨f, hf, rfl⟩ := List.mem_map.1 h
  obtain ⟨passed, d, hsplit, hparse, rfl⟩ := Finding.mem_allFrom [] hf
  exact ⟨d.source, Declaration.firm_source hparse, passed, d.rest, hsplit, rfl⟩

/-! ## Putting the parts of a folding in place -/

/-- Folds behind a position do not bury what ends before it. -/
lemma buried_append {l l' : List Range} {p q : Point} (h : ∀ f ∈ l', q ≤ f.start) :
    Buried (l ++ l') p q ↔ Buried l p q := by
  constructor
  · intro hburied x hpx hxq
    obtain ⟨f, hf, hfx, hxf⟩ := hburied x hpx hxq
    rcases List.mem_append.1 hf with hf | hf
    · exact ⟨f, hf, hfx, hxf⟩
    · exact absurd (lt_of_le_of_lt (h f hf) hfx) (not_lt.2 hxq)
  · intro hburied x hpx hxq
    obtain ⟨f, hf, hinside⟩ := hburied x hpx hxq
    exact ⟨f, List.mem_append_left _ hf, hinside⟩

/-- A range whose line endings are all folded is drawn on one row. -/
lemma Editor.row_screenRange_of_lineEndings {e : Editor} {r : Range} (hk : e.Kept)
    (hr : e.text.Holds r) (hfolds : ∀ q ∈ PartialFold.lineEndings e.text r, q ∈ e.folds.values) :
    (e.screenRange r).start.row = (e.screenRange r).stop.row := by
  show (e.screenPoint r.start).row = (e.screenPoint r.stop).row
  rw [Editor.screenPoint_of_addressable hr.start, Editor.screenPoint_of_addressable hr.stop]
  exact row_screenFrom_of_lineEndings hk.ordered hr.start hr.stop hr.ordered hfolds

/-- There is room for the preview of a request in its range. -/
structure FoldRequest.HasRoom (t : Text) (q : FoldRequest) : Prop where
  start : t.Addressable q.range.start
  stop : t.Addressable q.range.stop
  pos : 0 < q.preview.length
  width : q.preview.length ≤ (t.slice q.range).visualLength

lemma FoldRequest.HasRoom.lt {t : Text} {q : FoldRequest} (h : q.HasRoom t) :
    q.range.start < q.range.stop :=
  PartialFold.start_le_stop_of_width h.start h.stop (Nat.lt_of_lt_of_le h.pos h.width)

namespace Editor

variable {e : Editor} {request : FoldRequest}

lemma foldEach_still (ranges : List Range) (e : Editor) :
    (PartialFold.foldEach e ranges).2.cursor = e.cursor ∧
      (e.Still → (PartialFold.foldEach e ranges).2.Still) := by
  induction ranges generalizing e with
  | nil => exact ⟨rfl, fun h => h⟩
  | cons r ranges ih =>
    obtain ⟨hcursor, hstill⟩ := ih (e.fold r).2
    exact ⟨hcursor, fun h => hstill (h.fold r)⟩

/-- Putting a request in place does not move the cursor in the buffer. -/
lemma install_still (e : Editor) (request : FoldRequest) :
    (e.install request).2.2.cursor = e.cursor ∧
      (e.Still → (e.install request).2.2.Still) := by
  have hfolds := foldEach_still
    (PartialFold.pieces e.text (e.clipRange request.range) request.preview.length)
    (e.createMarker request.range).2
  unfold Editor.install
  dsimp only
  generalize PartialFold.foldEach (e.createMarker request.range).2 _ = folded at hfolds ⊢
  exact hfolds

lemma nextId_le_install (e : Editor) (request : FoldRequest) :
    e.nextId ≤ (e.install request).2.2.nextId := by
  have hfolds : e.nextId + 1 ≤ _ := (PartialFold.foldEach_frame
    (PartialFold.pieces e.text (e.clipRange request.range) request.preview.length)
    (e.createMarker request.range).2).2.2.2
  exact Nat.le_of_succ_le (Nat.le_succ_of_le hfolds)

/-- The pieces of the new folding come after the folds that are there. -/
lemma values_install_of_room (hk : e.Kept) (h : request.HasRoom e.text) :
    (e.install request).2.2.folds.values =
      e.folds.values ++ PartialFold.pieces e.text request.range request.preview.length := by
  have hmarker : (e.createMarker request.range).2.Kept := hk.run (.createMarker request.range)
  unfold install
  rw [clipRange_eq h.start h.stop (le_of_lt h.lt)]
  refine PartialFold.values_foldEach hmarker.folds fun r hr => ?_
  obtain ⟨hends, -, hlt, -⟩ := PartialFold.laid_pieces h.start h.stop h.pos h.width r hr
  exact clipRange_eq (e := (e.createMarker request.range).2) hends.1 hends.2 (le_of_lt hlt)

/-- Putting a request in place adds the pieces of its fold behind the folds that are there. -/
lemma values_install (hk : e.Kept) (h : request.Ready e.text)
    (hwidth : request.preview.length ≤ (e.text.slice request.range).visualLength) :
    (e.install request).2.2.folds.values =
      e.folds.values ++ PartialFold.pieces e.text request.range request.preview.length :=
  values_install_of_room hk ⟨h.start, h.stop, h.pos, hwidth⟩

end Editor

namespace FoldedEditor

variable {s s' u : FoldedEditor} {request : FoldRequest} {requests : List FoldRequest}
  {results : List FoldResult} {info : FoldingInfo} {id : FoldingId} {f : Folding} {r : Range}

/-- All foldings and their folds stop before the range of a request starts. -/
structure Ahead (s : FoldedEditor) (request : FoldRequest) : Prop where
  ranges : ∀ id f r, s.At id f r → r.stop ≤ request.range.start
  folds : ∀ id f k q, s.live.get? id = some f → k ∈ f.folds.folds →
    s.editor.folds.get? k = some q → q.start < q.stop ∧ q.stop ≤ request.range.start

/-- A request that can be served: its text is firm, and it comes after all foldings. -/
structure Servable (s : FoldedEditor) (request : FoldRequest) : Prop where
  ready : request.Ready s.editor.text
  firm : ∃ x : Text, x.Firm ∧ s.editor.text.StandsAt x request.range
  ahead : s.Ahead request

section Install

variable (ht : s.Tracked []) (hready : request.Ready s.editor.text)
  (hwidth : request.preview.length ≤ (s.editor.text.slice request.range).visualLength)

include ht hready hwidth

/-- Putting a request in place brings no other folding up. -/
lemma At.of_install
    (ha : ({ s with editor := (s.editor.install request).2.2 } : FoldedEditor).At id f r) :
    s.At id f r := by
  refine ⟨ha.live, ?_⟩
  obtain ⟨known, hfol⟩ := ht.follows id f ha.live
  obtain ⟨m, hm, -⟩ := hfol.tracks
  have hmarker := ha.marker
  obtain ⟨-, hmarkers, -⟩ := Editor.install_spec ht.tidy.toKept hready hwidth
  rwa [show ({ s with editor := (s.editor.install request).2.2 } : FoldedEditor).editor.markers = _
    from hmarkers, Table.get?_insert_of_ne _ _ (Nat.ne_of_lt (ht.tidy.markers _ m hm))] at hmarker

lemma At.install (ha : s.At id f r) :
    ({ s with editor := (s.editor.install request).2.2 } : FoldedEditor).At id f r := by
  have hk := ht.tidy.toKept
  refine ⟨ha.live, ?_⟩
  show (s.editor.install request).2.2.markers.get? f.marker = some ⟨r, true⟩
  rw [(Editor.install_spec hk hready hwidth).2.1,
    Table.get?_insert_of_ne _ _ (Nat.ne_of_lt (hk.markers _ _ ha.marker)), ha.marker]

/-- Putting a request in place behind the foldings leaves them standing. -/
lemma Standing.install (hs : s.Standing) :
    ({ s with editor := (s.editor.install request).2.2 } : FoldedEditor).Standing := by
  have hk := ht.tidy.toKept
  refine hs.of_folds (Editor.install_spec hk hready hwidth).1
    (fun _ _ _ ha => ha.of_install ht hready hwidth) (s.editor.nextId_le_install request) ?_
  intro k q hlt hq
  rwa [Editor.get?_install_of_lt hk hready hwidth hlt] at hq

/-- The folds of a new folding come after the others, so nothing is shown or hidden by them. -/
lemma Standing.calm_install (hs : s.Standing) (hq : s.Quiet) (hahead : s.Ahead request)
    (hstyled : ∀ id f, s.live.get? id = some f → f.Styled) :
    ({ s with editor := (s.editor.install request).2.2 } : FoldedEditor).Calm := by
  have hstill : s.editor.Still := by
    intro m hm
    rw [hq.2] at hm
    exact absurd hm (by simp)
  refine ⟨ht.install request, hs.install ht hready hwidth,
    (s.editor.install_still request).2 hstill, ?_, hstyled⟩
  intro id f r ha
  have ha' := ha.of_install ht hready hwidth
  have hpieces := PartialFold.laid_pieces hready.start hready.stop hready.pos hwidth
  rw [ht.shows hq hs id f r ha', Editor.values_install ht.tidy.toKept hready hwidth, buried_append]
  intro q hq
  exact le_trans (hahead.ranges id f r ha') (hpieces q hq).2.1

end Install

/-! ## Making a folding -/

/-- The state with the parts of a new folding in place and everything applied that this queued. -/
def prepared (s : FoldedEditor) (request : FoldRequest) : FoldedEditor :=
  ({ s with editor := (s.editor.install request).2.2 } : FoldedEditor).process

/-- From the prepared state, registering the folding `f` leads to `s'`. -/
structure Makes (s : FoldedEditor) (request : FoldRequest) (f : Folding) (s' : FoldedEditor) :
    Prop where
  live : s'.live = (s.prepared request).live.insert request.id f
  free : (s.prepared request).live.get? request.id = none
  redraws : (s.prepared request).editor.Redraws s'.editor f.marker
  marker : (s.prepared request).editor.markers.get? f.marker = some ⟨request.range, true⟩
  folds : f.folds = (s.editor.install request).1
  shown : f.label.isHidden = false
  styled : f.Styled
  highlighted : f.info.highlighted = request.range.contains (s.prepared request).editor.cursor
  screen : f.initialScreen = (s.prepared request).editor.screenRange request.range

/-- Styling a label that is shown as usual leaves it shown, in the style for the cursor if the
cursor is inside. -/
lemma styled_looks {label : Label} (hshown : label.isHidden = false)
    (hnormal : label.style = .normal) (e : Editor) (underCursor : Bool) :
    (label.styled e underCursor).1.isHidden = false ∧
      (label.styled e underCursor).1.style = if underCursor then .underCursor else .normal := by
  unfold Label.styled
  split_ifs
  · exact ⟨hshown, rfl⟩
  · exact ⟨hshown, hnormal⟩

/-- A folding is adopted as it is found: shown, and highlighted if the cursor is inside. -/
lemma adopt_looks (s : FoldedEditor) (request : FoldRequest) (k : MarkerId) (folds : PartialFold)
    {label : Label} (hshown : label.isHidden = false) (hnormal : label.style = .normal) :
    ∃ f, (s.adopt request k folds label).2.live = s.live.insert request.id f ∧
      f.marker = k ∧ f.folds = folds ∧ f.label.isHidden = false ∧ f.Styled ∧
      f.info.highlighted = (s.editor.markerRange? k).any (·.contains s.editor.cursor) ∧
      f.initialScreen =
        (s.editor.markerScreenRange? k).getD (s.editor.screenRange request.range) := by
  have hlooks := styled_looks hshown hnormal s.editor
    ((s.editor.markerRange? k).any (·.contains s.editor.cursor))
  exact ⟨_, rfl, rfl, rfl, hlooks.1, hlooks.2, rfl, rfl⟩

/-- A folding that is made was asked for where there is room, and is put in a place that is prepared
for it. -/
lemma Tracked.makes_of_holds (ht : s.Tracked []) (hq : s.Quiet)
    (hrange : s.editor.text.Holds request.range) (hid : s.live.get? request.id = none)
    (hc : s.createFolding request = .ok (info, s')) :
    request.preview.length ≤ (s.editor.text.slice request.range).visualLength ∧
      ∃ f, s.Makes request f s' := by
  obtain ⟨hwidth, hadopt⟩ := createFolding_ok hc
  have hclip : s.editor.clipRange request.range = request.range :=
    Editor.clipRange_eq hrange.start hrange.stop hrange.ordered
  rw [installed_of_quiet hq, process_of_quiet hq] at hadopt
  rw [process_of_quiet hq, hclip] at hwidth
  refine ⟨hwidth, ?_⟩
  have hinstalled := ht.install request
  obtain ⟨hmarker, hdrawn, hlabel, hshown, -⟩ := ht.install_spec request
  rw [hclip] at hmarker
  -- the marker of the new folding belongs to none of the others
  have hframe := hinstalled.frame_process
  have hkept : (s.prepared request).editor.markers.get? s.editor.nextId =
      some ⟨request.range, true⟩ := (hframe.markers _ ht.owners_nextId).trans hmarker
  have hstill : (s.editor.install request).2.1.DrawnIn (s.prepared request).editor := by
    refine hdrawn.congr fun d x hx => ?_
    exact hframe.decorations _ ht.owners_nextId d x (hx.trans hlabel)
  obtain ⟨f, hlive, hfm, hfolds, hfshown, hstyled, hhl, hscreen⟩ :=
    adopt_looks (s.prepared request) request s.editor.nextId (s.editor.install request).1 hshown rfl
  obtain ⟨f', hlive', hredraw, -⟩ :=
    hinstalled.process.adopt_spec request (s.editor.install request).1 hstill hlabel
  have hnew : (s.prepared request).editor.markerRange? s.editor.nextId = some request.range := by
    rw [Editor.markerRange?, hkept]
    rfl
  rw [show (s.prepared request).adopt request _ _ _ = _ from hadopt] at hlive
  rw [hadopt] at hredraw
  rw [hnew, Option.any_some] at hhl
  rw [Editor.markerScreenRange?, hnew] at hscreen
  exact ⟨f, hlive, hframe.fresh _ hid, hfm ▸ hredraw, hfm ▸ hkept, hfolds, hfshown, hstyled, hhl,
    hscreen⟩

lemma Tracked.makes (ht : s.Tracked []) (hq : s.Quiet) (hready : request.Ready s.editor.text)
    (hid : s.live.get? request.id = none) (hc : s.createFolding request = .ok (info, s')) :
    request.preview.length ≤ (s.editor.text.slice request.range).visualLength ∧
      ∃ f, s.Makes request f s' :=
  ht.makes_of_holds hq ⟨hready.start, hready.stop, le_of_lt hready.lt⟩ hid hc

namespace Makes

variable {g : Folding}

/-- Behind the making of a folding are that folding and those that were there when its place was
prepared. -/
lemma live_cases (h : s.Makes request f s') (hg : s'.live.get? id = some g) :
    id = request.id ∧ g = f ∨ id ≠ request.id ∧ (s.prepared request).live.get? id = some g := by
  rw [h.live, Table.get?_insert] at hg
  split_ifs at hg with hid
  · exact .inl ⟨hid, (Option.some.inj hg).symm⟩
  · exact .inr ⟨hid, hg⟩

/-- The new folding has the range that was asked for, and the others have those they had. -/
lemma at_cases (h : s.Makes request f s') (ha : s'.At id g r) :
    id = request.id ∧ g = f ∧ r = request.range ∨
      id ≠ request.id ∧ (s.prepared request).At id g r := by
  have hmarker := ha.marker
  rw [h.redraws.markers] at hmarker
  rcases h.live_cases ha.live with ⟨hid, rfl⟩ | ⟨hid, hlive⟩
  · rw [h.marker] at hmarker
    exact .inl ⟨hid, rfl, (congrArg Marker.range (Option.some.inj hmarker)).symm⟩
  · exact .inr ⟨hid, hlive, hmarker⟩

end Makes

section Prepared

variable (ht : s.Tracked []) (hready : request.Ready s.editor.text)
  (hwidth : request.preview.length ≤ (s.editor.text.slice request.range).visualLength)

include ht hready hwidth

/-- Foldings were only taken down since the parts were put in place. -/
lemma prepared_still : (s.prepared request).editor.text = s.editor.text ∧
    (s.prepared request).editor.cursor = s.editor.cursor ∧
    s.editor.nextId ≤ (s.prepared request).editor.nextId := by
  have hremains := (ht.install request).remains_process
  refine ⟨hremains.text.trans (Editor.install_spec ht.tidy.toKept hready hwidth).1,
    hremains.cursor.trans (s.editor.install_still request).1, ?_⟩
  exact Nat.le_trans (s.editor.nextId_le_install request) hremains.nextId

/-- Preparing a place leaves the foldings that stay where they were. -/
lemma At.of_prepared (ha : (s.prepared request).At id f r) :
    ∃ f₀, s.At id f₀ r ∧ f.folds = f₀.folds := by
  obtain ⟨f₀, ha₀, hfolds, -⟩ := ha.of_remains (ht.install request).remains_process
  exact ⟨f₀, ha₀.of_install ht hready hwidth, hfolds⟩

omit hready hwidth in
lemma live_prepared (hf : (s.prepared request).live.get? id = some f) :
    ∃ f₀, s.live.get? id = some f₀ ∧ f.folds = f₀.folds := by
  obtain ⟨f₀, hf₀, -, hfolds, -⟩ := (ht.install request).remains_process.live id f hf
  exact ⟨f₀, hf₀, hfolds⟩

/-- The folds of the foldings that were there before are not touched, unless they go. -/
lemma get?_folds_prepared {k : FoldId} {q : Range} (hk : k < s.editor.nextId)
    (hq : (s.prepared request).editor.folds.get? k = some q) :
    s.editor.folds.get? k = some q := by
  have hq' := (ht.install request).remains_process.get?_folds hq
  rwa [show ({ s with editor := (s.editor.install request).2.2 } : FoldedEditor).editor.folds.get? k
    = s.editor.folds.get? k from Editor.get?_install_of_lt ht.tidy.toKept hready hwidth hk] at hq'

/-- The folds of the new folding have numbers that are handed out while its place is prepared. -/
lemma lt_of_mem_install {k : FoldId} (hk : k ∈ (s.editor.install request).1.folds) :
    s.editor.nextId < k ∧ k < (s.prepared request).editor.nextId := by
  have hremains := (ht.install request).remains_process
  obtain ⟨hlt, hlt'⟩ := Editor.lt_of_mem_newPart ht.tidy.toKept (ht.install request).tidy.toKept
    hready hwidth hk
  exact ⟨hlt, Nat.lt_of_lt_of_le hlt' hremains.nextId⟩

/-- The folds of the new folding are all in place. -/
lemma map_get?_prepared (hs : s.Standing) :
    (s.editor.install request).1.folds.map (s.prepared request).editor.folds.get? =
      (PartialFold.pieces s.editor.text request.range request.preview.length).map some := by
  rw [← Editor.map_get?_install ht.tidy.toKept hready hwidth]
  refine List.map_congr_left fun k hk => ?_
  have hlt := (lt_of_mem_install ht hready hwidth hk).1
  rcases (ht.install request).remains_process.folds k with heq | ⟨-, id, g, hg, -, hmem⟩
  · exact heq
  · -- a fold that goes belongs to a folding that was there before
    exact absurd (hs.handedOut id g k hg hmem) (Nat.lt_asymm hlt)

end Prepared

/-! ## Batches -/

/-- In the middle of a batch: what was made so far is shown, it is highlighted exactly if the cursor
is inside, and the requests that are left come after it. -/
structure Batch (s : FoldedEditor) (requests : List FoldRequest) : Prop where
  tracked : s.Tracked []
  quiet : s.Quiet
  standing : s.Standing
  styled : ∀ id f, s.live.get? id = some f → f.Styled
  fresh : ∀ id f r, s.At id f r →
    f.label.isHidden = false ∧ f.info.highlighted = r.contains s.editor.cursor
  servable : ∀ q ∈ requests, s.Servable q
  ascending : FoldRequest.Ascending requests

namespace Makes

variable (h : s.Makes request f s') (ht : s.Tracked []) (hs : s.Standing)
  (hservable : s.Servable request)
  (hwidth : request.preview.length ≤ (s.editor.text.slice request.range).visualLength)

include h ht hs hservable hwidth

/-- Every fold of the new folding is a piece of its range. -/
lemma get?_fold {k : FoldId} {q : Range} (hk : k ∈ f.folds.folds)
    (hq : (s.prepared request).editor.folds.get? k = some q) :
    request.range.start ≤ q.start ∧ q.start < q.stop ∧ q.stop ≤ request.range.stop := by
  have hready := hservable.ready
  rw [h.folds] at hk
  have hmem : some q ∈ (PartialFold.pieces s.editor.text request.range
      request.preview.length).map some := by
    rw [← map_get?_prepared ht hready hwidth hs, ← hq]
    exact List.mem_map_of_mem hk
  obtain ⟨piece, hpiece, heq⟩ := List.mem_map.1 hmem
  obtain rfl := Option.some.inj heq
  exact (PartialFold.laid_pieces hready.start hready.stop hready.pos hwidth _ hpiece).2

/-- The line endings inside are folded, so the new folding is drawn on one row. -/
lemma flat (hk : (s.prepared request).editor.Kept) :
    f.initialScreen.start.row = f.initialScreen.stop.row := by
  have hready := hservable.ready
  obtain ⟨htext, -⟩ := prepared_still ht hready hwidth
  have hholds : (s.prepared request).editor.text.Holds request.range :=
    htext ▸ ⟨hready.start, hready.stop, le_of_lt hready.lt⟩
  rw [h.screen]
  refine Editor.row_screenRange_of_lineEndings hk hholds ?_
  intro q hq
  rw [htext] at hq
  have hmem : some q ∈ (s.editor.install request).1.folds.map
      (s.prepared request).editor.folds.get? := by
    rw [map_get?_prepared ht hready hwidth hs]
    exact List.mem_map_of_mem (List.mem_append_left _ hq)
  obtain ⟨k, -, hk⟩ := List.mem_map.1 hmem
  exact Table.mem_values_iff.2 ⟨k, hk⟩

/-- A folding that is made behind the others leaves everything standing. -/
lemma standing : s'.Standing := by
  have hready := hservable.ready
  have hprepared : (s.prepared request).Standing :=
    (hs.install ht hready hwidth).remains (ht.install request).remains_process
  obtain ⟨htext, -, hnext⟩ := prepared_still ht hready hwidth
  have hkept := (ht.install request).process.tidy.toKept
  refine ⟨?_, ?_, ?_, ?_⟩
  · intro id g r ha
    rw [h.redraws.text]
    rcases h.at_cases ha with ⟨-, -, rfl⟩ | ⟨-, ha'⟩
    · rw [htext]
      exact hservable.firm
    · exact hprepared.firm id g r ha'
  · intro id g hg
    rcases h.live_cases hg with ⟨-, rfl⟩ | ⟨-, hg'⟩
    · exact h.flat ht hs hservable hwidth hkept
    · exact hprepared.flat id g hg'
  · intro id g k hg hk
    refine Nat.lt_of_lt_of_le ?_ h.redraws.nextId
    rcases h.live_cases hg with ⟨-, rfl⟩ | ⟨-, hg'⟩
    · exact (lt_of_mem_install ht hready hwidth (h.folds ▸ hk)).2
    · exact hprepared.handedOut id g k hg' hk
  · intro id g r id' g' k q ha hg' hne hk hq
    rw [h.redraws.folds] at hq
    rcases h.at_cases ha with ⟨hid, -, rfl⟩ | ⟨hid, ha'⟩ <;>
      rcases h.live_cases hg' with ⟨hid', rfl⟩ | ⟨hid', hlive'⟩
    · exact absurd (hid'.trans hid.symm) hne
    · -- the folds of an older folding stop before the new one
      obtain ⟨g₀, hg₀, hfolds⟩ := live_prepared ht hlive'
      have hold := hs.handedOut id' g₀ k hg₀ (hfolds ▸ hk)
      obtain ⟨hlt, hle⟩ := hservable.ahead.folds id' g₀ k q hg₀ (hfolds ▸ hk)
        (get?_folds_prepared ht hready hwidth hold hq)
      exact ⟨hlt, .inl hle⟩
    · -- the folds of the new folding start after an older one
      obtain ⟨g₀, ha₀, -⟩ := ha'.of_prepared ht hready hwidth
      obtain ⟨hle, hlt, -⟩ := h.get?_fold ht hs hservable hwidth hk hq
      exact ⟨hlt, .inr (le_trans (hservable.ahead.ranges id g₀ r ha₀) hle)⟩
    · exact hprepared.clear id g r id' g' k q ha' hlive' hne hk hq

/-- A folding that is made in front of a later request stops before it. -/
lemma ahead {later : FoldRequest} (hahead : s.Ahead later)
    (hle : request.range.stop ≤ later.range.start) : s'.Ahead later := by
  have hready := hservable.ready
  refine ⟨?_, ?_⟩
  · intro id g r ha
    rcases h.at_cases ha with ⟨-, -, rfl⟩ | ⟨-, ha'⟩
    · exact hle
    · obtain ⟨g₀, ha₀, -⟩ := ha'.of_prepared ht hready hwidth
      exact hahead.ranges id g₀ r ha₀
  · intro id g k q hg hk hq
    rw [h.redraws.folds] at hq
    rcases h.live_cases hg with ⟨-, rfl⟩ | ⟨-, hg'⟩
    · obtain ⟨-, hlt, hstop⟩ := h.get?_fold ht hs hservable hwidth hk hq
      exact ⟨hlt, le_trans hstop hle⟩
    · obtain ⟨g₀, hg₀, hfolds⟩ := live_prepared ht hg'
      have hold := hs.handedOut id g₀ k hg₀ (hfolds ▸ hk)
      exact hahead.folds id g₀ k q hg₀ (hfolds ▸ hk)
        (get?_folds_prepared ht hready hwidth hold hq)

end Makes

/-- Granting a request takes a batch on to the next. -/
theorem Batch.createFolding (h : s.Batch (request :: requests))
    (hid : s.live.get? request.id = none) (hc : s.createFolding request = .ok (info, s')) :
    s'.Batch requests := by
  have hservable := h.servable request (by simp)
  have hready := hservable.ready
  obtain ⟨ht', hq'⟩ := h.tracked.createFolding hid hc
  obtain ⟨hwidth, f, hmakes⟩ := h.tracked.makes h.quiet hready hid hc
  obtain ⟨hlater, hascending⟩ := List.pairwise_cons.1 h.ascending
  obtain ⟨htext, hcursor, -⟩ := prepared_still h.tracked hready hwidth
  have hcalm := h.standing.calm_install h.tracked hready hwidth h.quiet hservable.ahead h.styled
  refine ⟨ht', hq', hmakes.standing h.tracked h.standing hservable hwidth, ?_, ?_, ?_, hascending⟩
  · intro id g hg
    rcases hmakes.live_cases hg with ⟨-, rfl⟩ | ⟨-, hg'⟩
    · exact hmakes.styled
    · obtain ⟨-, -, -, hstyled⟩ := hcalm.processRounds _ hg'
      exact hstyled
  · intro id g r ha
    rw [hmakes.redraws.cursor]
    rcases hmakes.at_cases ha with ⟨-, rfl, rfl⟩ | ⟨-, ha'⟩
    · exact ⟨hmakes.shown, hmakes.highlighted⟩
    · obtain ⟨g₀, hg₀, hlook, -⟩ := hcalm.processRounds _ ha'.live
      obtain ⟨g₁, ha₁, -⟩ := ha'.of_prepared h.tracked hready hwidth
      obtain rfl := Option.some.inj (ha₁.live.symm.trans hg₀)
      rw [hlook.isHidden, hlook.highlighted, hcursor]
      exact h.fresh id g₁ r ha₁
  · intro q hq
    obtain ⟨hreadyq, hfirmq, haheadq⟩ := h.servable q (List.mem_cons_of_mem _ hq)
    have htext' : s'.editor.text = s.editor.text := hmakes.redraws.text.trans htext
    exact ⟨htext' ▸ hreadyq, htext' ▸ hfirmq,
      hmakes.ahead h.tracked h.standing hservable hwidth haheadq (hlater q hq).2⟩

lemma Batch.skip (h : s.Batch (request :: requests)) : s.Batch requests :=
  { h with
    servable := fun q hq => h.servable q (List.mem_cons_of_mem _ hq)
    ascending := (List.pairwise_cons.1 h.ascending).2 }

/-- Where there are no foldings, any requests can be served that stand one after the other. -/
lemma Tracked.batch_of_none (ht : s.Tracked []) (hq : s.Quiet)
    (hnone : ∀ id f, s.live.get? id ≠ some f)
    (hrequests : ∀ q ∈ requests, q.Ready s.editor.text ∧
      ∃ x : Text, x.Firm ∧ s.editor.text.StandsAt x q.range)
    (hascending : FoldRequest.Ascending requests) : s.Batch requests where
  tracked := ht
  quiet := hq
  standing := .of_none hnone
  styled := fun id f hf => absurd hf (hnone id f)
  fresh := fun id f _ ha => absurd ha.live (hnone id f)
  servable := fun q hq => ⟨(hrequests q hq).1, (hrequests q hq).2,
    fun id f _ ha => absurd ha.live (hnone id f), fun id f _ _ hf => absurd hf (hnone id f)⟩
  ascending := hascending

/-- A batch that starts without foldings has none when it starts to make them. -/
lemma Tracked.live_batchStart (ht : s.Tracked []) (hnone : ∀ id f, s.live.get? id ≠ some f) :
    ∀ id f, s.batchStart.live.get? id ≠ some f := by
  intro id f hf
  obtain ⟨g, hg, -⟩ := ht.remains_process.live id f hf
  exact hnone id g hg

/-- An editor without foldings is ready for a batch. -/
lemma Tracked.batch_batchStart (ht : s.Tracked []) (hnone : ∀ id f, s.live.get? id ≠ some f)
    (hrequests : ∀ q ∈ requests, q.Ready s.editor.text ∧
      ∃ x : Text, x.Firm ∧ s.editor.text.StandsAt x q.range)
    (hascending : FoldRequest.Ascending requests) : s.batchStart.Batch requests := by
  refine (ht.process.configure _ _).batch_of_none (quiet_process _) (ht.live_batchStart hnone) ?_
    hascending
  show ∀ q ∈ requests, q.Ready s.process.editor.text ∧
    ∃ x : Text, x.Firm ∧ s.process.editor.text.StandsAt x q.range
  rw [ht.text_process]
  exact hrequests

/-- A batch into an editor without foldings: what it makes is shown, it stands where a request says,
and it is highlighted exactly if the cursor is inside. -/
theorem Tracked.foldAll_fresh (ht : s.Tracked []) (hnone : ∀ id f, s.live.get? id ≠ some f)
    (hon : s.highlighter.enabled = true)
    (hrequests : ∀ q ∈ requests, q.Ready s.editor.text ∧
      ∃ x : Text, x.Firm ∧ s.editor.text.StandsAt x q.range)
    (hascending : FoldRequest.Ascending requests)
    (hc : s.foldAll requests = .ok (results, s')) :
    s'.Watched ∧ ∀ id f r, s'.At id f r → (∃ q ∈ requests, q.id = id ∧ q.range = r) ∧
      f.label.isHidden = false ∧ f.info.highlighted = r.contains s'.editor.cursor := by
  obtain ⟨ht', -⟩ := ht.foldAll hc
  have henabled := Configured.foldAll (S := s.editor.settings) ⟨rfl, hon⟩ hc
  obtain ⟨maxLineLength, t, heach, rfl⟩ := foldAll_ok hc
  have hnone' := ht.live_batchStart hnone
  have hstart := ht.batch_batchStart hnone hrequests hascending
  have hend : t.Batch [] ∧ ∀ id f r, t.At id f r → ∃ q ∈ requests, q.id = id ∧ q.range = r := by
    refine (foldEach_induction (P := fun left t => left ⊆ requests ∧ t.Batch left ∧
      ∀ id f r, t.At id f r → ∃ q ∈ requests, q.id = id ∧ q.range = r) ?_ ?_ heach ?_).2
    · intro request rest t hP
      exact ⟨fun q hq => hP.1 (List.mem_cons_of_mem _ hq), hP.2.1.skip, hP.2.2⟩
    · intro request rest t t' info ⟨hleft, hbatch, hmade⟩ hid _ hcreate
      have hready := (hbatch.servable request (by simp)).ready
      obtain ⟨hwidth, f, hmakes⟩ := hbatch.tracked.makes hbatch.quiet hready hid hcreate
      refine ⟨fun q hq => hleft (List.mem_cons_of_mem _ hq), hbatch.createFolding hid hcreate, ?_⟩
      intro id g r ha
      rcases hmakes.at_cases ha with ⟨rfl, -, rfl⟩ | ⟨-, ha'⟩
      · exact ⟨request, hleft (by simp), rfl, rfl⟩
      · obtain ⟨g₀, ha₀, -⟩ := ha'.of_prepared hbatch.tracked hready hwidth
        exact hmade id g₀ r ha₀
    · exact ⟨fun q hq => hq, hstart, fun id f _ ha => absurd ha.live (hnone' id f)⟩
  obtain ⟨hbatch, hmade⟩ := hend
  refine ⟨⟨ht', hbatch.standing.configure _ _, henabled.2, hbatch.styled, ?_⟩, ?_⟩
  · intro id f r ha hhl
    rw [(hbatch.fresh id f r ⟨ha.live, ha.marker⟩).2] at hhl
    exact hhl
  · intro id f r ha
    exact ⟨hmade id f r ⟨ha.live, ha.marker⟩, hbatch.fresh id f r ⟨ha.live, ha.marker⟩⟩

end FoldedEditor

end TemplateFolding
