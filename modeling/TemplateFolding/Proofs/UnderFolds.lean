import TemplateFolding.Proofs.HighlightSessions
import TemplateFolding.Proofs.HostFolds

/-!
# Folding under folds of the host

A folding is made with its label drawn and with the extent it has at that moment as its shape, also
if a fold of the host lies over it. Under such a fold the extent is a point, or a lone placeholder.
As long as the fold stays, or another one that does the same, the shape is kept and the label stays
drawn. When the last one goes the extent becomes as wide as the preview, which is another shape, and
the folding is taken down. A folding that no fold of the host held when it was made outlives them.
-/

namespace TemplateFolding

open Text Point Range

namespace FoldedEditor

variable {s s' : FoldedEditor} {id : FoldingId} {f : Folding} {r : Range} {hosts : Table Range}
  {k : FoldId} {request : FoldRequest} {requests : List FoldRequest} {info : FoldingInfo}

/-- The folds after a request has been put in place are those from before and its pieces. -/
lemma get?_folds_install {e : Editor} (hk : e.Kept) (hready : request.Ready e.text)
    (hwidth : request.preview.length ≤ (e.text.slice request.range).visualLength) {q : Range}
    (hq : (e.install request).2.2.folds.get? k = some q) :
    e.folds.get? k = some q ∨ k ∈ (e.install request).1.folds ∧
      q ∈ PartialFold.pieces e.text request.range request.preview.length := by
  have hmem := Table.mem_entries_iff.2 hq
  rw [(Editor.install_spec hk hready hwidth).2.2.2.1, List.mem_append] at hmem
  rcases hmem with hmem | hmem
  · exact .inl (Table.mem_entries_iff.1 hmem)
  · exact .inr (List.of_mem_zip hmem)

/-! ## Batches lose nothing -/

/-- The folds of a request change nothing about what stands in front of it. -/
lemma screenPoint_install {e : Editor} (hk : e.Kept) (hready : request.Ready e.text)
    (hwidth : request.preview.length ≤ (e.text.slice request.range).visualLength) {p : Point}
    (hp : e.text.Addressable p) (hle : p ≤ request.range.start) :
    (e.install request).2.2.screenPoint p = e.screenPoint p := by
  have htext := (Editor.install_spec hk hready hwidth).1
  refine Editor.screenPoint_congr hp (by rwa [htext]) (Table.ext_get? fun k => ?_)
  rw [Table.get?_filter, Table.get?_filter]
  by_cases hlt : k < e.nextId
  · rw [Editor.get?_install_of_lt hk hready hwidth hlt]
  · have hnone : e.folds.get? k = none := by
      cases hq : e.folds.get? k with
      | none => rfl
      | some q => exact absurd (hk.folds k q hq) hlt
    rw [hnone]
    cases hq : (e.install request).2.2.folds.get? k with
    | none => rfl
    | some q =>
      rcases get?_folds_install hk hready hwidth hq with hold | ⟨-, hpiece⟩
      · exact absurd (hnone.symm.trans hold) (by simp)
      · have hstart := (PartialFold.laid_pieces hready.start hready.stop hready.pos hwidth q
          hpiece).2.1
        simp [not_lt.2 (le_trans hle hstart)]

/-- Putting a request in place behind the others leaves the foldings of a batch in shape. -/
lemma Batch.inShape_install (h : s.Batch (request :: requests))
    (hwidth : request.preview.length ≤ (s.editor.text.slice request.range).visualLength) :
    ({ s with editor := (s.editor.install request).2.2 } : FoldedEditor).InShape := by
  intro id f hf
  have hk := h.tracked.tidy.toKept
  have hservable := h.servable request (by simp)
  obtain ⟨r, ha⟩ := h.tracked.exists_at h.quiet hf
  refine ⟨r, ha.install h.tracked hservable.ready hwidth, ?_⟩
  obtain ⟨x, hx, hstands⟩ := h.standing.firm id f r ha
  obtain ⟨hstart, hstop, hlt⟩ := hstands.holds hx
  have hle := hservable.ahead.ranges id f r ha
  have hextent : (s.editor.install request).2.2.screenRange r = s.editor.screenRange r := by
    show (⟨(s.editor.install request).2.2.screenPoint r.start,
      (s.editor.install request).2.2.screenPoint r.stop⟩ : Range) =
        ⟨s.editor.screenPoint r.start, s.editor.screenPoint r.stop⟩
    rw [screenPoint_install hk hservable.ready hwidth hstart (le_trans (le_of_lt hlt) hle),
      screenPoint_install hk hservable.ready hwidth hstop hle]
  show f.initialScreen.isTranslationOf ((s.editor.install request).2.2.screenRange r) = true
  rw [hextent]
  rcases h.tracked.looks_of_quiet h.quiet ha with hvisible | ⟨-, hcollapsed⟩
  · exact hvisible.1
  · -- what a batch has made so far is shown
    exact absurd ((h.fresh id f r ha).1.symm.trans hcollapsed.2.1) (by simp)

/-- No folding made before is lost. -/
lemma Batch.at_prepared (h : s.Batch (request :: requests))
    (hwidth : request.preview.length ≤ (s.editor.text.slice request.range).visualLength)
    (ha : s.At id f r) : ∃ f', (s.prepared request).At id f' r :=
  (h.inShape_install hwidth).at_process (h.tracked.install request)
    (ha.install h.tracked (h.servable request (by simp)).ready hwidth)

/-- Making the folding of a request adds it to those that are there, and takes none away. -/
lemma Batch.at_createFolding_iff (h : s.Batch (request :: requests))
    (hid : s.live.get? request.id = none) (hc : s.createFolding request = .ok (info, s')) :
    (∃ f, s'.At id f r) ↔ (∃ f, s.At id f r) ∨ id = request.id ∧ r = request.range := by
  have hready := (h.servable request (by simp)).ready
  obtain ⟨hwidth, g, hmakes⟩ := h.tracked.makes h.quiet hready hid hc
  constructor
  · rintro ⟨f, ha⟩
    rcases hmakes.at_cases ha with ⟨hid, -, hr⟩ | ⟨-, ha⟩
    · exact .inr ⟨hid, hr⟩
    · obtain ⟨f₀, ha₀, -⟩ := ha.of_prepared h.tracked hready hwidth
      exact .inl ⟨f₀, ha₀⟩
  · rintro (⟨f, ha⟩ | ⟨rfl, rfl⟩)
    · have hne : id ≠ request.id := by
        rintro rfl
        exact absurd (hid.symm.trans ha.live) (by simp)
      obtain ⟨f', ha'⟩ := h.at_prepared hwidth ha
      refine ⟨f', ?_, ?_⟩
      · rw [hmakes.live, Table.get?_insert_of_ne _ _ hne]
        exact ha'.live
      · rw [hmakes.redraws.markers]
        exact ha'.marker
    · refine ⟨g, ?_, ?_⟩
      · rw [hmakes.live, Table.get?_insert_self]
      · rw [hmakes.redraws.markers]
        exact hmakes.marker

/-- A request that is granted adds one folding, and no other is lost to it. -/
lemma Batch.size_createFolding (h : s.Batch (request :: requests))
    (hid : s.live.get? request.id = none) (hc : s.createFolding request = .ok (info, s')) :
    s'.live.size = s.live.size + 1 := by
  have hready := (h.servable request (by simp)).ready
  obtain ⟨hwidth, f, hmakes⟩ := h.tracked.makes h.quiet hready hid hc
  rw [hmakes.live, Table.size_insert_of_none hmakes.free]
  congr 1
  refine Table.size_congr fun id => ⟨fun ⟨g, hg⟩ => ?_, fun ⟨g, hg⟩ => ?_⟩
  · obtain ⟨g₀, hg₀, -⟩ := live_prepared h.tracked hg
    exact ⟨g₀, hg₀⟩
  · obtain ⟨r, ha⟩ := h.tracked.exists_at h.quiet hg
    obtain ⟨g', ha'⟩ := h.at_prepared hwidth ha
    exact ⟨g', ha'.live⟩

/-! ## Batches under folds of the host -/

/-- In the middle of a batch: the folds of the host are all there, and what other folds there are
keeps out of the requests that are left. -/
structure Welcomes (hosts : Table Range) (s : FoldedEditor) (requests : List FoldRequest) :
    Prop where
  batch : s.Batch requests
  hosted : s.Hosted hosts
  present : ∀ k q, hosts.get? k = some q → s.editor.folds.get? k = some q
  others : ∀ k q, s.editor.folds.get? k = some q → hosts.get? k = some q ∨
    hosts.get? k = none ∧ ∀ p ∈ requests, q.KeepsOutOf p.range
  wide : ∀ p ∈ requests, 1 < p.preview.length
  respects : ∀ p ∈ requests, ∀ k q, hosts.get? k = some q → q.respects p.range = true

namespace Welcomes

lemma skip (h : s.Welcomes hosts (request :: requests)) : s.Welcomes hosts requests where
  batch := h.batch.skip
  hosted := h.hosted
  present := h.present
  others := fun k q hq => (h.others k q hq).imp_right fun ⟨hnone, hout⟩ =>
    ⟨hnone, fun p hp => hout p (List.mem_cons_of_mem _ hp)⟩
  wide := fun p hp => h.wide p (List.mem_cons_of_mem _ hp)
  respects := fun p hp => h.respects p (List.mem_cons_of_mem _ hp)

/-- The folds of the host have numbers that have been handed out. -/
lemma lt_nextId (h : s.Welcomes hosts requests) {q : Range} (hq : hosts.get? k = some q) :
    k < s.editor.nextId :=
  h.batch.tracked.tidy.folds k q (h.present k q hq)

section Install

variable (h : s.Welcomes hosts (request :: requests))
  (hwidth : request.preview.length ≤ (s.editor.text.slice request.range).visualLength)

include h hwidth

/-- The numbers of new folds belong to no fold of the host. -/
lemma get?_of_mem_install (hk : k ∈ (s.editor.install request).1.folds) : hosts.get? k = none := by
  have hready := (h.batch.servable request (by simp)).ready
  have hlt := (lt_of_mem_install h.batch.tracked hready hwidth hk).1
  by_contra hsome
  obtain ⟨q, hq⟩ := Option.ne_none_iff_exists'.1 hsome
  exact Nat.lt_asymm hlt (h.lt_nextId hq)

/-- The parts of a new folding leave the others their breadth. -/
lemma hosted_install :
    ({ s with editor := (s.editor.install request).2.2 } : FoldedEditor).Hosted hosts := by
  obtain ⟨hready, -, hahead⟩ := h.batch.servable request (by simp)
  have ht := h.batch.tracked
  have hk := ht.tidy.toKept
  have htext := (Editor.install_spec hk hready hwidth).1
  refine ⟨h.batch.standing.install ht hready hwidth, h.hosted.apart, ?_⟩
  intro id f r ha
  have ha₀ := ha.of_install ht hready hwidth
  obtain ⟨width, hholds, hscreen⟩ := h.hosted.held id f r ha₀
  refine ⟨width, ⟨hholds.wide, ?_, hholds.nodup, ?_, hholds.apart, ?_, hholds.respects⟩, hscreen⟩
  · show width ≤ ((s.editor.install request).2.2.text.slice r).visualLength
    rw [htext]
    exact hholds.fits
  · show f.folds.folds.map (s.editor.install request).2.2.folds.get? =
      (PartialFold.pieces (s.editor.install request).2.2.text r width).map some
    rw [htext, ← hholds.pieces]
    refine List.map_congr_left fun k hmem => ?_
    exact Editor.get?_install_of_lt hk hready hwidth
      (h.batch.standing.handedOut id f k ha₀.live hmem)
  · intro k q hq hmem
    rcases get?_folds_install hk hready hwidth hq with hq | ⟨hnew, hpiece⟩
    · exact hholds.others k q hq hmem
    · -- a new fold starts behind the range
      obtain ⟨-, hle, hlt, -⟩ :=
        PartialFold.laid_pieces hready.start hready.stop hready.pos hwidth q hpiece
      exact .inr ⟨h.get?_of_mem_install hwidth hnew, hlt,
        .inr (le_trans (hahead.ranges id f r ha₀) hle)⟩

/-- While a place is prepared all foldings go on having been made with the folds of the host in
place. -/
lemma hosted_prepared : (s.prepared request).Hosted hosts :=
  (h.hosted_install hwidth).remains (h.batch.tracked.install request).remains_process

/-- While a place is prepared no fold of the host goes. -/
lemma present_prepared {q : Range} (hq : hosts.get? k = some q) :
    (s.prepared request).editor.folds.get? k = some q := by
  have hready := (h.batch.servable request (by simp)).ready
  have ht := h.batch.tracked
  have hinstalled := (h.hosted_install hwidth).get?_folds (ht.install request).remains_process
    (k := k) (by simp [hq])
  exact hinstalled.trans ((Editor.get?_install_of_lt ht.tidy.toKept hready hwidth
    (h.lt_nextId hq)).trans (h.present k q hq))

/-- The folds in a prepared place, other than the new ones, are the host's, or keep out of the
requests. -/
lemma others_prepared {q : Range} (hq : (s.prepared request).editor.folds.get? k = some q)
    (hmem : k ∉ (s.editor.install request).1.folds) :
    hosts.get? k = some q ∨
      hosts.get? k = none ∧ ∀ p ∈ request :: requests, q.KeepsOutOf p.range := by
  have hready := (h.batch.servable request (by simp)).ready
  have ht := h.batch.tracked
  have hq' := (ht.install request).remains_process.get?_folds hq
  rcases get?_folds_install ht.tidy.toKept hready hwidth hq' with hq' | ⟨hnew, -⟩
  · exact h.others k q hq'
  · exact absurd hnew hmem

end Install

/-- A new folding is made with the breadth that the folds of the host give it. -/
lemma holds_new (h : s.Welcomes hosts (request :: requests))
    (hwidth : request.preview.length ≤ (s.editor.text.slice request.range).visualLength)
    (hmakes : s.Makes request f s') :
    (s.prepared request).Holds hosts f request.range request.preview.length ∧
      f.initialScreen.HasBreadth
        (breadth hosts.values request.range request.preview.length) := by
  obtain ⟨hready, ⟨x, hx, hstands⟩, -⟩ := h.batch.servable request (by simp)
  have ht := h.batch.tracked
  have htext := (prepared_still ht hready hwidth).1
  have hids := (Editor.install_spec ht.tidy.toKept hready hwidth).2.2.1
  have hholds : (s.prepared request).Holds hosts f request.range request.preview.length := by
    refine ⟨h.wide request (by simp), htext ▸ hwidth, ?_, ?_, ?_, ?_, h.respects request (by simp)⟩
    · rw [hmakes.folds, hids]
      exact List.nodup_range'
    · rw [hmakes.folds, htext]
      exact map_get?_prepared ht hready hwidth h.batch.standing
    · intro k hk
      exact h.get?_of_mem_install hwidth (hmakes.folds ▸ hk)
    · intro k q hq hk
      rw [hmakes.folds] at hk
      exact (h.others_prepared hwidth hq hk).imp_right fun ⟨hnone, hout⟩ =>
        ⟨hnone, hout request (by simp)⟩
  refine ⟨hholds, ?_⟩
  -- no fold of the host is missing
  have hall : ∀ q, q ∈ (s.prepared request).left hosts ↔ q ∈ hosts.values := by
    intro q
    refine ⟨fun hq => left_subset _ hosts hq, fun hq => ?_⟩
    obtain ⟨k, hk⟩ := Table.mem_values_iff.1 hq
    exact mem_left_iff.2 ⟨k, q, hk, h.present_prepared hwidth hk⟩
  rw [hmakes.screen, ← breadth_congr fun q _ => hall q]
  exact hholds.hasBreadth (ht.install request).process.tidy.toKept hx (htext ▸ hstands)

/-- Granting a request welcomes the rest of the batch. -/
theorem createFolding (h : s.Welcomes hosts (request :: requests))
    (hid : s.live.get? request.id = none) (hc : s.createFolding request = .ok (info, s')) :
    s'.Welcomes hosts requests := by
  obtain ⟨hready, hfirm, hahead⟩ := h.batch.servable request (by simp)
  have ht := h.batch.tracked
  obtain ⟨hwidth, f, hmakes⟩ := ht.makes h.batch.quiet hready hid hc
  obtain ⟨hholds, hscreen⟩ := h.holds_new hwidth hmakes
  have hprepared := h.hosted_prepared hwidth
  have hfolds := hmakes.redraws.folds
  have hlater := (List.pairwise_cons.1 h.batch.ascending).1
  have hstanding := hmakes.standing ht h.batch.standing ⟨hready, hfirm, hahead⟩ hwidth
  -- nothing but labels changes when the folding is registered
  have hredraws : ∀ {g : Folding} {r : Range} {width : Nat},
      (s.prepared request).Holds hosts g r width → s'.Holds hosts g r width := by
    intro g r width hg
    refine ⟨hg.wide, hmakes.redraws.text ▸ hg.fits, hg.nodup, ?_, hg.apart, ?_, hg.respects⟩
    · rw [hfolds, hmakes.redraws.text]
      exact hg.pieces
    · rw [hfolds]
      exact hg.others
  refine ⟨h.batch.createFolding hid hc, ⟨hstanding, ?_, ?_⟩, ?_, ?_, h.skip.wide, h.skip.respects⟩
  · intro id g k hg hk
    rcases hmakes.live_cases hg with ⟨-, rfl⟩ | ⟨-, hg'⟩
    · exact hholds.apart k hk
    · exact hprepared.apart id g k hg' hk
  · intro id g r ha
    rcases hmakes.at_cases ha with ⟨-, rfl, rfl⟩ | ⟨-, ha'⟩
    · exact ⟨_, hredraws hholds, hscreen⟩
    · obtain ⟨width, hg, hgscreen⟩ := hprepared.held id g r ha'
      exact ⟨width, hredraws hg, hgscreen⟩
  · intro k q hq
    rw [hfolds]
    exact h.present_prepared hwidth hq
  · intro k q hq
    rw [hfolds] at hq
    by_cases hk : k ∈ (s.editor.install request).1.folds
    · obtain ⟨-, hlt, hle⟩ := hmakes.get?_fold ht h.batch.standing ⟨hready, hfirm, hahead⟩ hwidth
        (hmakes.folds ▸ hk) hq
      exact .inr ⟨h.get?_of_mem_install hwidth hk,
        fun p hp => ⟨hlt, .inl (le_trans hle (hlater p hp).2)⟩⟩
    · exact (h.others_prepared hwidth hq hk).imp_right fun ⟨hnone, hout⟩ =>
        ⟨hnone, fun p hp => hout p (List.mem_cons_of_mem _ hp)⟩

end Welcomes

/-- A batch into an editor without foldings: as many foldings are there in the end as were made, and
each has the breadth that the folds of the host gave it. -/
theorem Tracked.foldAll_sheltered {results : List FoldResult} (ht : s.Tracked [])
    (hnone : ∀ id f, s.live.get? id ≠ some f)
    (hrequests : ∀ q ∈ requests, q.Ready s.editor.text ∧
      ∃ x : Text, x.Firm ∧ s.editor.text.StandsAt x q.range)
    (hascending : FoldRequest.Ascending requests) (hwide : ∀ q ∈ requests, 1 < q.preview.length)
    (hrespects : ∀ p ∈ requests, ∀ k q, s.editor.folds.get? k = some q →
      q.respects p.range = true)
    (hc : s.foldAll requests = .ok (results, s')) :
    s'.Sheltered s.editor.folds ∧ s'.live.size = results.countP (·.isFolded) ∧
      ∀ k q, s.editor.folds.get? k = some q → s'.editor.folds.get? k = some q := by
  obtain ⟨ht', hq'⟩ := ht.foldAll hc
  obtain ⟨maxLineLength, t, heach, rfl⟩ := foldAll_ok hc
  have hnone' := ht.live_batchStart hnone
  have hfolds : ∀ k, s.batchStart.editor.folds.get? k = s.editor.folds.get? k := by
    intro k
    rcases ht.remains_process.folds k with heq | ⟨-, id, f, hf, -⟩
    · exact heq
    · exact absurd hf (hnone id f)
  have hstart : s.batchStart.Welcomes s.editor.folds requests := by
    refine ⟨ht.batch_batchStart hnone hrequests hascending, ⟨.of_none hnone',
      fun id f _ hf => absurd hf (hnone' id f), fun id f _ ha => absurd ha.live (hnone' id f)⟩,
      ?_, ?_, hwide, hrespects⟩
    · exact fun k q hq => (hfolds k).trans hq
    · exact fun k q hq => .inl ((hfolds k).symm.trans hq)
  have hempty : s.batchStart.live.size = 0 := by
    have hsize : s.batchStart.live.size = (Table.empty : Table Folding).size :=
      Table.size_congr fun id => by simp [hnone']
    exact hsize
  obtain ⟨hend, hsize⟩ := foldEach_counts (n := 0) (P := fun left n t =>
    t.Welcomes s.editor.folds left ∧ t.live.size = n) (fun _ _ _ _ hP => ⟨hP.1.skip, hP.2⟩)
    (fun _ _ _ _ _ _ hP hid _ hcreate =>
      ⟨hP.1.createFolding hid hcreate, by rw [hP.1.batch.size_createFolding hid hcreate, hP.2]⟩)
    heach ⟨hstart, hempty⟩
  rw [Nat.zero_add] at hsize
  have hstanding := hend.hosted.standing.configure
  refine ⟨⟨ht', hq', hstanding _ _, hend.hosted.apart, ?_⟩, hsize, hend.present⟩
  intro id f r ha
  obtain ⟨width, hholds, hscreen⟩ := hend.hosted.held id f r ⟨ha.live, ha.marker⟩
  exact ⟨width, ⟨hholds.wide, hholds.fits, hholds.nodup, hholds.pieces, hholds.apart,
    hholds.others, hholds.respects⟩, hscreen⟩

end FoldedEditor

lemma Preview.one_lt_length_text (p : Preview) : 1 < p.text.length := by
  have hkeyword : 0 < ("template<".toList ++ p.paramsText).length := by simp
  have hlength : p.text.length = ("template<".toList ++ p.paramsText).length + 1 :=
    List.length_append
  exact lt_of_lt_of_eq (Nat.succ_lt_succ hkeyword) hlength.symm

namespace AutoFolder

/-! ## Folding everything under folds of the host -/

variable {a : AutoFolder} {id : FoldingId} {f : Folding} {r : Range} {e : Editor}
  {report : FoldReport}

/-- The host removes folds one after the other, and the foldings are brought up to date after
each. -/
def dropFolds (a : AutoFolder) (ks : List FoldId) : AutoFolder :=
  ks.foldl (fun a k => (a.edit fun e => ((), e.destroyFold k)).2) a

lemma folded_dropFolds (a : AutoFolder) (ks : List FoldId) :
    (a.dropFolds ks).folded = a.folded.dropFolds ks := by
  induction ks generalizing a with
  | nil => rfl
  | cons k ks ih => exact ih _

lemma one_lt_of_mem_requestsFor {os : List Occurrence} {q : FoldRequest}
    (h : q ∈ requestsFor id os) : 1 < q.preview.length := by
  fun_induction requestsFor id os with
  | case1 => simp at h
  | case2 id o os preview hpreview ih =>
    rcases List.mem_cons.1 h with rfl | hmem
    · exact preview.one_lt_length_text
    · exact ih hmem
  | case3 id o os refusal hpreview ih => exact ih h

/-- The state after everything has been folded under folds of the host. -/
lemma foldAll_sheltered (he : e.Reachable)
    (hd : ∀ d x, e.decorations.get? d = some x → x.marker < e.nextId)
    (hfolds : ∀ k q, e.folds.get? k = some q →
      ∀ o ∈ Occurrence.all e.text, q.respects o.range = true)
    (ha : (ofEditor e).foldAll = (.ok report, a)) :
    a.folded.Sheltered e.folds ∧ a.folded.live.size = report.folded ∧
      (∀ k q, e.folds.get? k = some q → a.folded.editor.folds.get? k = some q) ∧
      ∀ id f r, a.folded.At id f r → ∃ o ∈ Occurrence.all e.text, o.range = r := by
  obtain ⟨hunfolded, -⟩ := ((Session.start he).attended hd).unfoldAll
  have hrest : (ofEditor e).folded.unfoldAll = .atRest e e.nextId .empty :=
    FoldedEditor.unfoldAll_ofEditor e
  have ht : (FoldedEditor.atRest e e.nextId .empty).Tracked [] :=
    hrest ▸ hunfolded.watched.tracked
  have henabled : (FoldedEditor.atRest e e.nextId .empty).highlighter.enabled = true :=
    hrest ▸ hunfolded.watched.enabled
  have hnone : ∀ id f, (FoldedEditor.atRest e e.nextId .empty).live.get? id ≠ some f := by
    intro id f hf
    exact absurd hf (by simp [FoldedEditor.atRest])
  unfold AutoFolder.foldAll at ha
  rw [hrest] at ha
  dsimp only at ha
  split at ha
  · simp at ha
  · rename_i results s' hbatch
    obtain ⟨hreport, rfl⟩ := Prod.mk.inj ha
    obtain ⟨hready, hascending⟩ := requestsFor_all (ofEditor e).nextId e.text
    have hrange : ∀ q ∈ requestsFor (ofEditor e).nextId (Occurrence.all e.text),
        ∃ o ∈ Occurrence.all e.text, o.range = q.range :=
      fun q hq => List.mem_map.1 (mem_requestsFor hq).2.1
    have hservable : ∀ q ∈ requestsFor (ofEditor e).nextId (Occurrence.all e.text),
        q.Ready e.text ∧ ∃ x : Text, x.Firm ∧ e.text.StandsAt x q.range :=
      fun q hq => ⟨hready q hq, Occurrence.standsAt (mem_requestsFor hq).2.1⟩
    have hrespects : ∀ p ∈ requestsFor (ofEditor e).nextId (Occurrence.all e.text),
        ∀ k q, e.folds.get? k = some q → q.respects p.range = true := by
      intro p hp k q hq
      obtain ⟨o, ho, horange⟩ := hrange p hp
      exact horange ▸ hfolds k q hq o ho
    obtain ⟨hsheltered, hsize, hpresent⟩ := ht.foldAll_sheltered hnone hservable hascending
      (fun q hq => one_lt_of_mem_requestsFor hq) hrespects hbatch
    obtain ⟨-, hfresh⟩ := ht.foldAll_fresh hnone henabled hservable hascending hbatch
    refine ⟨hsheltered, ?_, hpresent, ?_⟩
    · rw [← Except.ok.inj hreport]
      exact hsize
    · intro id f r hat
      obtain ⟨⟨q, hq, -, rfl⟩, -⟩ := hfresh id f r hat
      exact hrange q hq

/-- **Foldings under folds.** Let every fold of the host share nothing with a declaration or hold
all of it. Then everything that is folded has its label drawn, under a fold of the host or not. When
the host removes folds, a folding stays, with its label drawn, exactly if for every fold that held
it one is left that holds it too, and reaches past it if that one did. Otherwise it is gone. -/
theorem foldAll_under_folds (he : e.Reachable)
    (hd : ∀ d x, e.decorations.get? d = some x → x.marker < e.nextId)
    (hfolds : ∀ k q, e.folds.get? k = some q →
      ∀ o ∈ Occurrence.all e.text, q.respects o.range = true)
    (ha : (ofEditor e).foldAll = (.ok report, a)) :
    (a.folded.live.size = report.folded ∧
      ∀ id f, a.folded.live.get? id = some f →
        ∃ o ∈ Occurrence.all e.text, a.folded.rangeOf? id = some o.range ∧
          ∃ v ∈ a.folded.editor.overlays, v.marker = f.marker ∧ v.range = o.range) ∧
    ∀ ks : List FoldId, (∀ k ∈ ks, (e.folds.get? k).isSome) →
      ∀ id r, a.folded.rangeOf? id = some r →
        ((∃ f, (a.dropFolds ks).folded.live.get? id = some f) ↔
          ∀ k q, e.folds.get? k = some q → q.covers r = true →
            ∃ k' q', e.folds.get? k' = some q' ∧ k' ∉ ks ∧ q'.covers r = true ∧
              (q.buries r = true → q'.buries r = true)) ∧
        ∀ f, (a.dropFolds ks).folded.live.get? id = some f →
          ∃ v ∈ (a.dropFolds ks).folded.editor.overlays, v.marker = f.marker ∧ v.range = r := by
  obtain ⟨hsheltered, hsize, hpresent, hrange⟩ := foldAll_sheltered he hd hfolds ha
  have hdrawn : ∀ {s : FoldedEditor} {id : FoldingId} {f : Folding} {r : Range},
      s.Sheltered e.folds → s.At id f r →
        ∃ v ∈ s.editor.overlays, v.marker = f.marker ∧ v.range = r := by
    intro s id f r hs hat
    obtain ⟨hmem, hmarker⟩ := (hs.tracked.overlay_iff hat).2 ⟨hs.shown hat, rfl⟩
    exact ⟨_, hmem, hmarker, rfl⟩
  refine ⟨⟨hsize, fun id f hf => ?_⟩, fun ks hks id r hr => ?_⟩
  · obtain ⟨r, hat⟩ := hsheltered.tracked.exists_at hsheltered.quiet hf
    obtain ⟨o, ho, rfl⟩ := hrange id f r hat
    exact ⟨o, ho, hat.rangeOf?, hdrawn hsheltered hat⟩
  · obtain ⟨f, hat⟩ := hsheltered.tracked.at_of_rangeOf? hsheltered.quiet hr
    obtain ⟨width, hholds, hscreen⟩ := hsheltered.hosted.held id f r hat
    have hks' : ∀ k ∈ ks, e.folds.get? k ≠ none :=
      fun k hk => Option.isSome_iff_ne_none.1 (hks k hk)
    obtain ⟨hend, hback, hleft⟩ := hsheltered.dropFolds hks'
    rw [folded_dropFolds, hsheltered.live_dropFolds_iff hat hholds hscreen hks',
      breadth_eq_iff (FoldedEditor.left_subset _ e.folds) hholds.wide]
    constructor
    · constructor
      · intro hheld k q hk hcovers
        obtain ⟨q', hq', hcovers', hburies⟩ :=
          hheld q (Table.mem_values_iff.2 ⟨k, hk⟩) hcovers
        obtain ⟨k', hk', hmem⟩ := (hsheltered.mem_left_dropFolds hks' hpresent).1 hq'
        exact ⟨k', q', hk', hmem, hcovers', hburies⟩
      · intro hheld q hq hcovers
        obtain ⟨k, hk⟩ := Table.mem_values_iff.1 hq
        obtain ⟨k', q', hk', hmem, hcovers', hburies⟩ := hheld k q hk hcovers
        have hq' := (hsheltered.mem_left_dropFolds hks' hpresent).2 ⟨k', hk', hmem⟩
        exact ⟨q', hq', hcovers', hburies⟩
    · intro f' hf'
      obtain ⟨r', hat'⟩ := hend.tracked.exists_at hend.quiet hf'
      obtain ⟨g, hat₀⟩ := hback id f' r' hat'
      obtain rfl := Option.some.inj (hat₀.rangeOf?.symm.trans hr)
      exact hdrawn hend hat'

/-- Two folds over the second of two declarations. Its folding outlives the outer one and goes with
the inner one. -/
theorem foldAll_under_folds_nested :
    let e := Editor.runAll { text := "template<class T> x\n(template<class U> y)".toList }
      [.fold ⟨⟨1, 0⟩, ⟨1, 21⟩⟩, .fold ⟨⟨1, 1⟩, ⟨1, 20⟩⟩]
    let a := (ofEditor e).foldAll.2
    e.Reachable ∧ (∀ k q, e.folds.get? k = some q →
        ∀ o ∈ Occurrence.all e.text, q.respects o.range = true) ∧
      (ofEditor e).foldAll = (.ok ⟨2, 0, []⟩, a) ∧ a.folded.live.size = 2 ∧
      (∃ f, (a.dropFolds [1]).folded.live.get? 2 = some f) ∧
      (¬∃ f, (a.dropFolds [1, 2]).folded.live.get? 2 = some f) ∧
      ∃ f, (a.dropFolds [1, 2]).folded.live.get? 1 = some f := by
  intro e a
  have he : e.Reachable := ⟨_, _, _, rfl⟩
  have hd : ∀ d x, e.decorations.get? d = some x → x.marker < e.nextId :=
    fun _ _ hx => nomatch (show (none : Option Decoration) = some _ from hx)
  have hrespects : ∀ k q, e.folds.get? k = some q →
      ∀ o ∈ Occurrence.all e.text, q.respects o.range = true := by
    intro k q hq
    have hall : ∀ q ∈ e.folds.values, ∀ o ∈ Occurrence.all e.text, q.respects o.range = true := by
      decide +kernel
    exact hall q (Table.mem_values_iff.2 ⟨k, hq⟩)
  have hfold : (ofEditor e).foldAll = (.ok ⟨2, 0, []⟩, a) := Prod.ext (by decide +kernel) rfl
  have hkeys : ∀ k q, e.folds.get? k = some q → k ∈ [1, 2] := by
    intro k q hq
    have hall : e.folds.keys = [1, 2] := by decide +kernel
    rw [← hall]
    exact Table.mem_keys_iff.2 ⟨q, hq⟩
  have hfirst : a.folded.rangeOf? 1 = some ⟨⟨0, 0⟩, ⟨0, 17⟩⟩ := by decide +kernel
  have hsecond : a.folded.rangeOf? 2 = some ⟨⟨1, 1⟩, ⟨1, 18⟩⟩ := by decide +kernel
  obtain ⟨⟨hsize, -⟩, hdrop⟩ := foldAll_under_folds he hd hrespects hfold
  refine ⟨he, hrespects, hfold, hsize, ?_, ?_, ?_⟩
  · refine (hdrop [1] (by decide +kernel) 2 _ hsecond).1.2 fun k q _ _ => ?_
    exact ⟨2, ⟨⟨1, 1⟩, ⟨1, 20⟩⟩, by decide +kernel, by decide, by decide, fun _ => by decide⟩
  · intro hlive
    obtain ⟨k, q, hq, hk, -⟩ := (hdrop [1, 2] (by decide +kernel) 2 _ hsecond).1.1 hlive 2
      ⟨⟨1, 1⟩, ⟨1, 20⟩⟩ (by decide +kernel) (by decide)
    exact hk (hkeys k q hq)
  · refine (hdrop [1, 2] (by decide +kernel) 1 _ hfirst).1.2 fun k q hq hcovers => ?_
    have hall : ∀ q ∈ e.folds.values, q.covers ⟨⟨0, 0⟩, ⟨0, 17⟩⟩ = false := by decide +kernel
    rw [hall q (Table.mem_values_iff.2 ⟨k, hq⟩)] at hcovers
    exact absurd hcovers (by simp)

/-- A declaration strictly inside a fold of the host: its label is drawn nevertheless, and when the
fold goes the folding goes with it. -/
theorem buried_folding_drawn_and_lost :
    let e := Editor.runAll { text := "x\ntemplate<class T> s;\n".toList }
      [.fold ⟨⟨0, 0⟩, ⟨1, 20⟩⟩]
    let a := (ofEditor e).foldAll.2
    (Occurrence.all e.text).map (·.range) = [⟨⟨1, 0⟩, ⟨1, 17⟩⟩] ∧
      e.folds.values = [⟨⟨0, 0⟩, ⟨1, 20⟩⟩] ∧
      a.folded.live.keys = [1] ∧ a.folded.editor.overlays.map (·.range) = [⟨⟨1, 0⟩, ⟨1, 17⟩⟩] ∧
      (a.dropFolds [1]).folded.live.keys = [] ∧ (a.dropFolds [1]).folded.editor.overlays = [] := by
  decide +kernel

end AutoFolder

end TemplateFolding
