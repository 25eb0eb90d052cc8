import TemplateFolding.Proofs.CoveredExtents
import TemplateFolding.Proofs.WatchedCursor

/-!
# What foldings live through

A folding is taken down only when its extent no longer has the shape that it had when the folding
was made. If folds of the host either hold all of a folding or share nothing with it, the shape is a
matter of which of them are left: those that go can make the extent wider, and nothing but that
takes the folding down.
-/

namespace TemplateFolding

open Text Point Range

namespace FoldedEditor

variable {s s' t : FoldedEditor} {drained : List MarkerChange} {c : MarkerChange}
  {id : FoldingId} {f f' : Folding} {r : Range}

/-! ## Foldings that keep their shape -/

/-- A notification leaves a folding live that it does not concern, or finds in its shape. -/
lemma Tracked.live_onMarkerChange_of_shape (h : s.Tracked drained)
    (hf : s.live.get? id = some f)
    (hshape : f.marker = c.marker →
      c.valid = true ∧ f.initialScreen.isTranslationOf c.new = true) :
    ∃ f', (s.onMarkerChange c).live.get? id = some f' := by
  rcases h.onMarkerChange_cases c with
    ⟨hlive, -⟩ | ⟨j, g, hg, hmarker, ⟨hdone, hshapeless⟩ | ⟨-, g', -, hdone⟩⟩
  · exact ⟨f, by rw [hlive, hf]⟩
  · have hne : id ≠ j := by
      rintro rfl
      obtain rfl := Option.some.inj (hf.symm.trans hg)
      exact hshapeless (hshape hmarker)
    exact ⟨f, by rw [hdone, Table.get?_erase_of_ne _ hne, hf]⟩
  · rw [hdone, Table.get?_insert]
    split
    · exact ⟨g', rfl⟩
    · exact ⟨f, hf⟩

/-- A round takes no folding down whose notification tells of its first shape. -/
lemma Tracked.live_onMarkerChanges_of_shape (h : s.Tracked drained)
    (hd : drained.Pairwise fun c d => c.marker ≠ d.marker) (hf : s.live.get? id = some f)
    (hshape : ∀ c, MarkerChange.of? f.marker drained = some c →
      c.valid = true ∧ f.initialScreen.isTranslationOf c.new = true) :
    ∃ f', (drained.foldl FoldedEditor.onMarkerChange s).live.get? id = some f' := by
  induction drained generalizing s f with
  | nil => exact ⟨f, hf⟩
  | cons c rest ih =>
    obtain ⟨hc, hrest⟩ := List.pairwise_cons.1 hd
    obtain ⟨g, hg⟩ := h.live_onMarkerChange_of_shape hf fun heq =>
      hshape c (by rw [MarkerChange.of?_cons, if_pos heq.symm])
    obtain ⟨f₀, hf₀, hmarker, -, hscreen⟩ :=
      ((h.step_onMarkerChange c).remains h.knowsMarkers).1.live id g hg
    obtain rfl := Option.some.inj (hf.symm.trans hf₀)
    refine ih (h.onMarkerChange hd) hrest hg fun d hdm => ?_
    rw [hmarker] at hdm
    rw [hscreen]
    apply hshape d
    have hne : c.marker ≠ f.marker := by
      intro heq
      have hnone : MarkerChange.of? f.marker rest = none :=
        MarkerChange.of?_eq_none fun d hmem hdm => hc d hmem (heq.trans hdm.symm)
      rw [hnone] at hdm
      exact absurd hdm (by simp)
    rw [MarkerChange.of?_cons, if_neg hne, hdm]

lemma live_onCursorMove (s : FoldedEditor) (m : CursorMove) (id : FoldingId) :
    ((s.onCursorMove m).live.get? id).isSome = (s.live.get? id).isSome := by
  refine List.foldlRecOn _ _ (motive := fun (t : FoldedEditor) =>
    (t.live.get? id).isSome = (s.live.get? id).isSome) rfl fun t ht c _ => ?_
  rw [← ht]
  cases c with
  | add j => rw [applyHighlight, get?_live_setHighlight, Option.isSome_map]
  | remove j => rw [applyHighlight, get?_live_setHighlight, Option.isSome_map]

lemma Tracked.remains_processRound (h : s.Tracked []) : s.Remains s.processRound :=
  (Remains.refl s).emptied.trans (steps_remain h.steps_processRound h.knowsMarkers).1

/-- A folding that has its first shape when a round begins is there when the round ends. -/
lemma Tracked.live_processRound_of_shape (h : s.Tracked []) (ha : s.At id f r)
    (hshape : f.initialScreen.isTranslationOf (s.editor.screenRange r) = true) :
    ∃ f', s.processRound.live.get? id = some f' := by
  obtain ⟨known, hfol⟩ := h.follows id f ha.live
  obtain ⟨m, hm, hacc⟩ := hfol.tracks
  obtain rfl := Option.some.inj (ha.marker.symm.trans hm)
  have hfollowed : ∃ f', s.followed.live.get? id = some f' := by
    refine h.drain.live_onMarkerChanges_of_shape h.tidy.distinct ha.live fun c hc => ?_
    unfold Editor.Accounts at hacc
    rw [show s.editor.pending? f.marker = some c from hc] at hacc
    obtain ⟨-, hvalid, -, hnew⟩ := hacc
    exact ⟨hvalid, by rw [hnew rfl]; exact hshape⟩
  have hmoves : (s.processRound.live.get? id).isSome = (s.followed.live.get? id).isSome :=
    List.foldlRecOn _ _ (motive := fun (t : FoldedEditor) =>
      (t.live.get? id).isSome = (s.followed.live.get? id).isSome) rfl
      fun t ht m _ => (live_onCursorMove t m id).trans ht
  rwa [← Option.isSome_iff_exists, hmoves, Option.isSome_iff_exists]

/-- A folding that is in its shape whatever remains around it is live after any number of rounds. -/
lemma Tracked.at_processRounds_of_shape (h : s.Tracked []) (ha : s.At id f r)
    (hshape : ∀ t g, t.Tracked [] → s.Remains t → t.At id g r →
      g.initialScreen.isTranslationOf (t.editor.screenRange r) = true) (rounds : Nat) :
    ∃ f', (FoldedEditor.processRounds rounds s).At id f' r := by
  induction rounds generalizing s f with
  | zero => exact ⟨f, ha⟩
  | succ rounds ih =>
    unfold FoldedEditor.processRounds
    split
    · have hremains := h.remains_processRound
      obtain ⟨g, hg⟩ := h.live_processRound_of_shape ha (hshape s f h (.refl s) ha)
      exact ih h.processRound (hremains.at ha hg).1
        fun t g ht hr hat => hshape t g ht (hremains.trans hr) hat
    · exact ⟨f, ha⟩

/-- A folding is not taken down that has its first shape whatever else is taken down. -/
theorem Tracked.at_process_of_shape (h : s.Tracked []) (ha : s.At id f r)
    (hshape : ∀ t g, t.Tracked [] → s.Remains t → t.At id g r →
      g.initialScreen.isTranslationOf (t.editor.screenRange r) = true) :
    ∃ f', s.process.At id f' r :=
  h.at_processRounds_of_shape ha hshape _

/-! ## All foldings in shape -/

/-- Every folding is drawn in the shape in which it was made. -/
def InShape (s : FoldedEditor) : Prop :=
  ∀ id f, s.live.get? id = some f →
    ∃ r, s.At id f r ∧ f.initialScreen.isTranslationOf (s.editor.screenRange r) = true

/-- Where all foldings are left, all folds are. -/
lemma Remains.folds_eq (h : s.Remains s') (hlive : ∀ id f, s.live.get? id = some f →
    ∃ f', s'.live.get? id = some f') : s'.editor.folds = s.editor.folds := by
  refine Table.ext_get? fun k => ?_
  rcases h.folds k with heq | ⟨-, id, f, hf, hgone, -⟩
  · exact heq
  · obtain ⟨f', hf'⟩ := hlive id f hf
    exact absurd (hgone.symm.trans hf') (by simp)

/-- A round takes none of the foldings down that are all in shape, and leaves them in shape. -/
lemma InShape.processRound (h : s.InShape) (ht : s.Tracked []) : s.processRound.InShape ∧
    ∀ id f, s.live.get? id = some f → ∃ f', s.processRound.live.get? id = some f' := by
  have hlive : ∀ id f, s.live.get? id = some f → ∃ f', s.processRound.live.get? id = some f' := by
    intro id f hf
    obtain ⟨r, ha, hshape⟩ := h id f hf
    exact ht.live_processRound_of_shape ha hshape
  refine ⟨fun id f' hf' => ?_, hlive⟩
  have hremains := ht.remains_processRound
  obtain ⟨f, hf, -⟩ := hremains.live id f' hf'
  obtain ⟨r, ha, hshape⟩ := h id f hf
  obtain ⟨ha', -, hscreen⟩ := hremains.at ha hf'
  have hextent : s.processRound.editor.screenRange r = s.editor.screenRange r := by
    unfold Editor.screenRange
    rw [hremains.text, hremains.folds_eq hlive]
  exact ⟨r, ha', by rw [hscreen, hextent]; exact hshape⟩

/-- Foldings in shape are not taken down. -/
theorem InShape.at_process (h : s.InShape) (ht : s.Tracked []) (ha : s.At id f r) :
    ∃ f', s.process.At id f' r := by
  have hrounds : ∀ (rounds : Nat) {s : FoldedEditor} {f : Folding}, s.InShape → s.Tracked [] →
      s.At id f r → ∃ f', (processRounds rounds s).At id f' r := by
    intro rounds
    induction rounds with
    | zero => exact fun _ _ ha => ⟨_, ha⟩
    | succ rounds ih =>
      intro s f h ht ha
      unfold FoldedEditor.processRounds
      split
      · obtain ⟨hnext, hlive⟩ := h.processRound ht
        obtain ⟨f', hf'⟩ := hlive id f ha.live
        exact ih hnext ht.processRound (ht.remains_processRound.at ha hf').1
      · exact ⟨f, ha⟩
  exact hrounds _ h ht ha

/-! ## Folds of the host and of foldings -/

variable {hosts : Table Range} {width : Nat} {k : FoldId}

/-- The pieces of a folding with the range `r` are in place, and every other fold is one of the host
and respects the range, or keeps out of it. -/
structure Holds (hosts : Table Range) (s : FoldedEditor) (f : Folding) (r : Range) (width : Nat) :
    Prop where
  wide : 1 < width
  fits : width ≤ (s.editor.text.slice r).visualLength
  nodup : f.folds.folds.Nodup
  pieces : f.folds.folds.map s.editor.folds.get? =
    (PartialFold.pieces s.editor.text r width).map some
  apart : ∀ k ∈ f.folds.folds, hosts.get? k = none
  others : ∀ k q, s.editor.folds.get? k = some q → k ∉ f.folds.folds →
    hosts.get? k = some q ∨ hosts.get? k = none ∧ q.KeepsOutOf r
  respects : ∀ k q, hosts.get? k = some q → q.respects r = true

/-- Every folding was made with all of `hosts` in place. -/
structure Hosted (hosts : Table Range) (s : FoldedEditor) : Prop where
  standing : s.Standing
  apart : ∀ id f k, s.live.get? id = some f → k ∈ f.folds.folds → hosts.get? k = none
  held : ∀ id f r, s.At id f r → ∃ width, s.Holds hosts f r width ∧
    f.initialScreen.HasBreadth (breadth hosts.values r width)

/-- The folds of the host that are left. -/
def left (s : FoldedEditor) (hosts : Table Range) : List Range :=
  (hosts.filter fun k _ => s.editor.folds.contains k).values

lemma mem_left_iff {q : Range} : q ∈ s.left hosts ↔
    ∃ k q', hosts.get? k = some q ∧ s.editor.folds.get? k = some q' := by
  simp only [left, Table.mem_values_iff, Table.get?_filter, Option.filter_eq_some_iff,
    Table.contains, Option.isSome_iff_exists, exists_and_left]

lemma left_subset (s : FoldedEditor) (hosts : Table Range) : s.left hosts ⊆ hosts.values := by
  intro q hq
  obtain ⟨k, -, hk, -⟩ := mem_left_iff.1 hq
  exact Table.mem_values_iff.2 ⟨k, hk⟩

/-- The folds that are not of a folding. -/
def foldsBut (s : FoldedEditor) (f : Folding) : List Range :=
  (s.editor.folds.filter fun k _ => decide (k ∉ f.folds.folds)).values

lemma mem_foldsBut_iff {q : Range} : q ∈ s.foldsBut f ↔
    ∃ k, s.editor.folds.get? k = some q ∧ k ∉ f.folds.folds := by
  simp only [foldsBut, Table.mem_values_iff, Table.get?_filter, Option.filter_eq_some_iff,
    decide_eq_true_eq]

/-- Only folds of the host hold the range of a folding. -/
lemma Holds.mem_foldsBut_iff (h : s.Holds hosts f r width) (hr : r.start < r.stop) {q : Range}
    (hcovers : q.covers r = true) : q ∈ s.foldsBut f ↔ q ∈ s.left hosts := by
  rw [FoldedEditor.mem_foldsBut_iff, mem_left_iff]
  constructor
  · rintro ⟨k, hk, hmem⟩
    rcases h.others k q hk hmem with hhost | ⟨-, hout⟩
    · exact ⟨k, q, hhost, hk⟩
    · rw [hout.covers_eq_false hr] at hcovers
      exact absurd hcovers (by simp)
  · rintro ⟨k, q', hhost, hk⟩
    have hmem : k ∉ f.folds.folds := by
      intro hmem
      rw [h.apart k hmem] at hhost
      exact absurd hhost (by simp)
    rcases h.others k q' hk hmem with hhost' | ⟨hnone, -⟩
    · rw [hhost] at hhost'
      obtain rfl := Option.some.inj hhost'
      exact ⟨k, hk, hmem⟩
    · rw [hnone] at hhost
      exact absurd hhost (by simp)

/-- How wide a folding is drawn depends on the folds of the host that are left. -/
theorem Holds.hasBreadth (h : s.Holds hosts f r width) (hk : s.editor.Kept) {x : Text} (hx : x.Firm)
    (hs : s.editor.text.StandsAt x r) :
    (s.editor.screenRange r).HasBreadth (breadth (s.left hosts) r width) := by
  obtain ⟨hstart, hstop, hlt⟩ := hs.holds hx
  have hrespects : ∀ q ∈ s.foldsBut f, q.respects r = true := by
    intro q hq
    obtain ⟨k, hk, hmem⟩ := FoldedEditor.mem_foldsBut_iff.1 hq
    rcases h.others k q hk hmem with hhost | ⟨-, hout⟩
    · exact h.respects k q hhost
    · exact respects_iff.2 (.inl hout.apart)
  rw [← breadth_congr fun q hcovers => h.mem_foldsBut_iff hlt hcovers]
  exact hk.hasBreadth hstart hstop (Nat.lt_trans Nat.zero_lt_one h.wide) h.fits
    (Table.perm_values h.nodup h.pieces) hrespects

/-- The folds of a folding are not empty and lie in its range. -/
lemma Holds.lt (h : s.Holds hosts f r width) {q : Range} (hs : s.editor.text.Addressable r.start)
    (he : s.editor.text.Addressable r.stop) (hk : k ∈ f.folds.folds)
    (hq : s.editor.folds.get? k = some q) :
    r.start ≤ q.start ∧ q.start < q.stop ∧ q.stop ≤ r.stop := by
  have hmem : some q ∈ f.folds.folds.map s.editor.folds.get? := hq ▸ List.mem_map_of_mem hk
  rw [h.pieces] at hmem
  obtain ⟨p, hp, hpq⟩ := List.mem_map.1 hmem
  obtain rfl := Option.some.inj hpq
  exact (PartialFold.laid_pieces hs he (Nat.lt_trans Nat.zero_lt_one h.wide) h.fits p hp).2

/-! ## What stays when foldings are taken down -/

/-- The folds of the host stay. -/
lemma Hosted.get?_folds (h : s.Hosted hosts) (hr : s.Remains s') (hk : hosts.get? k ≠ none) :
    s'.editor.folds.get? k = s.editor.folds.get? k := by
  rcases hr.folds k with heq | ⟨-, id, f, hf, -, hmem⟩
  · exact heq
  · exact absurd (h.apart id f k hf hmem) hk

/-- When foldings are taken down all folds of the host are left. -/
lemma Hosted.mem_left (h : s.Hosted hosts) (hr : s.Remains s') {q : Range} :
    q ∈ s'.left hosts ↔ q ∈ s.left hosts := by
  rw [mem_left_iff, mem_left_iff]
  refine exists_congr fun k => exists_congr fun q' => and_congr_right fun hk => ?_
  rw [h.get?_folds hr (by simp [hk])]

/-- The folds of a folding that stays do too. -/
lemma Holds.remains (h : s.Holds hosts f r width) (hs : s.Standing) (hr : s.Remains s')
    (ha : s.At id f r) (ha' : s'.At id f' r) (hfolds : f'.folds = f.folds) :
    s'.Holds hosts f' r width where
  wide := h.wide
  fits := hr.text ▸ h.fits
  nodup := hfolds ▸ h.nodup
  pieces := by
    obtain ⟨x, hx, hstands⟩ := hs.firm id f r ha
    obtain ⟨hstart, hstop, -⟩ := hstands.holds hx
    rw [hfolds, hr.text, ← h.pieces]
    refine List.map_congr_left fun k hk => ?_
    rcases hr.folds k with heq | ⟨-, id', g, hg, hgone, hmem⟩
    · exact heq
    · -- a fold that goes belongs to another folding, and so keeps out of the range
      have hne : id' ≠ id := by
        rintro rfl
        rw [ha'.live] at hgone
        exact absurd hgone (by simp)
      have hmem' : s.editor.folds.get? k ∈ f.folds.folds.map s.editor.folds.get? :=
        List.mem_map_of_mem hk
      rw [h.pieces] at hmem'
      obtain ⟨q, -, hq⟩ := List.mem_map.1 hmem'
      obtain ⟨hle, hlt, hle'⟩ := h.lt hstart hstop hk hq.symm
      have hout := (hs.clear id f r id' g k q ha hg hne hmem hq.symm).apart
      simp only [lt_iff, le_iff] at hle hlt hle' hout
      omega
  apart := hfolds ▸ h.apart
  others := by
    intro k q hq hk
    rw [hfolds] at hk
    exact h.others k q (hr.get?_folds hq) hk
  respects := h.respects

/-- Foldings that remain were made with the same folds in place. -/
theorem Hosted.remains (h : s.Hosted hosts) (hr : s.Remains s') : s'.Hosted hosts where
  standing := h.standing.remains hr
  apart := by
    intro id f' k hf' hk
    obtain ⟨f, hf, -, hfolds, -⟩ := hr.live id f' hf'
    exact h.apart id f k hf (hfolds ▸ hk)
  held := by
    intro id f' r ha'
    obtain ⟨f, ha, hfolds, hscreen⟩ := ha'.of_remains hr
    obtain ⟨width, hholds, hbreadth⟩ := h.held id f r ha
    exact ⟨width, hholds.remains h.standing hr ha ha' hfolds, hscreen ▸ hbreadth⟩

/-- A folding is there after everything queued has been applied exactly if the folds of the host
that are left give it the breadth it was made with. Then its label is drawn. -/
theorem Hosted.live_process_iff (h : s.Hosted hosts) (ht : s.Tracked []) (ha : s.At id f r)
    (hholds : s.Holds hosts f r width)
    (hscreen : f.initialScreen.HasBreadth (breadth hosts.values r width)) :
    ((∃ f', s.process.live.get? id = some f') ↔
        breadth (s.left hosts) r width = breadth hosts.values r width) ∧
      ∀ f', s.process.live.get? id = some f' → f'.label.isHidden = false := by
  -- the extent after some foldings have been taken down
  have hbreadth : ∀ t g, t.Tracked [] → s.Remains t → t.At id g r →
      g.initialScreen.HasBreadth (breadth hosts.values r width) ∧
        (t.editor.screenRange r).HasBreadth (breadth (s.left hosts) r width) := by
    intro t g htt hr hat
    obtain ⟨f₀, ha₀, hfolds, hinitial⟩ := hat.of_remains hr
    obtain rfl := Option.some.inj (ha.live.symm.trans ha₀.live)
    obtain ⟨x, hx, hstands⟩ := h.standing.firm id f r ha
    refine ⟨hinitial ▸ hscreen, ?_⟩
    rw [← breadth_congr fun q _ => h.mem_left hr]
    have hholds' := hholds.remains h.standing hr ha hat hfolds
    exact hholds'.hasBreadth htt.tidy.toKept hx (hr.text ▸ hstands)
  have hlook : ∀ f', s.process.live.get? id = some f' →
      breadth (s.left hosts) r width = breadth hosts.values r width ∧
        f'.label.isHidden = false := by
    intro f' hf'
    have ha' := (ht.remains_process.at ha hf').1
    obtain ⟨hinitial, hextent⟩ := hbreadth _ f' ht.process ht.remains_process ha'
    rcases ht.process.looks_of_quiet (quiet_process _) ha' with hlook | ⟨hpoint, hlook⟩
    · exact ⟨((hinitial.isTranslationOf_iff hextent).1 hlook.1).symm, hlook.2.1⟩
    · -- folds that are left do not make the extent narrower
      have hzero := hextent.isPoint_iff.1 hlook.1
      have hpos : breadth hosts.values r width ≠ 0 := by
        intro hnone
        rw [hinitial.isPoint_iff.2 hnone] at hpoint
        exact absurd hpoint (by simp)
      have hle := breadth_le_of_subset (r := r) (s.left_subset hosts) (le_of_lt hholds.wide)
      omega
  refine ⟨⟨fun ⟨f', hf'⟩ => (hlook f' hf').1, fun heq => ?_⟩, fun f' hf' => (hlook f' hf').2⟩
  obtain ⟨f', ha'⟩ := ht.at_process_of_shape ha fun t g htt hr hat =>
    ((hbreadth t g htt hr hat).1.isTranslationOf_iff (hbreadth t g htt hr hat).2).2 heq.symm
  exact ⟨f', ha'.live⟩

/-! ## Taking folds of the host away -/

/-- Removes a fold and applies everything that this queues. -/
def dropFold (s : FoldedEditor) (k : FoldId) : FoldedEditor :=
  (s.host fun e => EditorCall.run e (.destroyFold k)).process

/-- Removes folds one after the other. -/
def dropFolds (s : FoldedEditor) (ks : List FoldId) : FoldedEditor :=
  ks.foldl dropFold s

lemma host_destroyFold (s : FoldedEditor) (k : FoldId) :
    let s₁ := s.host fun e => EditorCall.run e (.destroyFold k)
    s₁.editor.text = s.editor.text ∧ s₁.editor.markers = s.editor.markers ∧
      ∀ j, s₁.editor.folds.get? j = if j = k then none else s.editor.folds.get? j := by
  have hspec := Editor.destroyFolds_spec ⟨0, [k]⟩ s.editor
  refine ⟨hspec.1, markers_destroyFolds ⟨0, [k]⟩ s.editor, fun j => ?_⟩
  exact (hspec.2.2.2 j).trans (by simp only [List.mem_singleton])

/-- A fold of the host is not one of a folding, so its pieces stay in place without it. -/
lemma Holds.host_destroyFold (h : s.Holds hosts f r width) (hk : hosts.get? k ≠ none) :
    (s.host fun e => EditorCall.run e (.destroyFold k)).Holds hosts f r width := by
  obtain ⟨htext, -, hfolds⟩ := s.host_destroyFold k
  refine ⟨h.wide, htext ▸ h.fits, h.nodup, ?_, h.apart, ?_, h.respects⟩
  · rw [htext, ← h.pieces]
    refine List.map_congr_left fun j hj => ?_
    have hne : j ≠ k := by
      rintro rfl
      exact hk (h.apart j hj)
    rw [hfolds, if_neg hne]
  · intro j q hq hj
    rw [hfolds] at hq
    split_ifs at hq
    exact h.others j q hq hj

/-- Taking a fold of the host away does not change with what the foldings were made. -/
lemma Hosted.host_destroyFold (h : s.Hosted hosts) (hk : hosts.get? k ≠ none) :
    (s.host fun e => EditorCall.run e (.destroyFold k)).Hosted hosts := by
  obtain ⟨-, hmarkers, -⟩ := s.host_destroyFold k
  refine ⟨h.standing.host trivial, h.apart, ?_⟩
  intro id f r ha
  obtain ⟨width, hholds, hscreen⟩ := h.held id f r ⟨ha.live, hmarkers ▸ ha.marker⟩
  exact ⟨width, hholds.host_destroyFold hk, hscreen⟩

/-- Foldings and folds of the host, with nothing queued. -/
structure Sheltered (hosts : Table Range) (s : FoldedEditor) : Prop where
  tracked : s.Tracked []
  quiet : s.Quiet
  hosted : s.Hosted hosts

/-- Between calls every folding is shown. -/
lemma Sheltered.shown (h : s.Sheltered hosts) (ha : s.At id f r) : f.label.isHidden = false := by
  obtain ⟨width, hholds, hscreen⟩ := h.hosted.held id f r ha
  have hshown := (h.hosted.live_process_iff h.tracked ha hholds hscreen).2 f
  rw [process_of_quiet h.quiet] at hshown
  exact hshown ha.live

/-- Without one fold of the host the foldings are sheltered again, no folding has come up, and the
other folds of the host are as before. -/
lemma Sheltered.dropFold (h : s.Sheltered hosts) (hk : hosts.get? k ≠ none) :
    (s.dropFold k).Sheltered hosts ∧
      (∀ id f' r, (s.dropFold k).At id f' r → ∃ f, s.At id f r) ∧
      ∀ j, hosts.get? j ≠ none →
        (s.dropFold k).editor.folds.get? j = if j = k then none else s.editor.folds.get? j := by
  have ht := h.tracked.host (.destroyFold k) trivial
  have hhosted := h.hosted.host_destroyFold hk
  have hremains := ht.remains_process
  refine ⟨⟨ht.process, quiet_process _, hhosted.remains hremains⟩, ?_, ?_⟩
  · intro id f' r ha'
    obtain ⟨f, ha, -⟩ := ha'.of_remains hremains
    exact ⟨f, ha.live, (s.host_destroyFold k).2.1 ▸ ha.marker⟩
  · intro j hj
    exact (hhosted.get?_folds hremains hj).trans ((s.host_destroyFold k).2.2 j)

/-- Without several folds of the host the same holds, in whatever order they go. -/
lemma Sheltered.dropFolds {ks : List FoldId} (h : s.Sheltered hosts)
    (hks : ∀ k ∈ ks, hosts.get? k ≠ none) :
    (s.dropFolds ks).Sheltered hosts ∧
      (∀ id f' r, (s.dropFolds ks).At id f' r → ∃ f, s.At id f r) ∧
      ∀ j, hosts.get? j ≠ none →
        (s.dropFolds ks).editor.folds.get? j =
          if j ∈ ks then none else s.editor.folds.get? j := by
  induction ks generalizing s with
  | nil => exact ⟨h, fun _ f' _ ha => ⟨f', ha⟩, fun j _ => by simp [FoldedEditor.dropFolds]⟩
  | cons k ks ih =>
    obtain ⟨h₁, hat₁, hfolds₁⟩ := h.dropFold (hks k (by simp))
    obtain ⟨h₂, hat₂, hfolds₂⟩ := ih h₁ fun j hj => hks j (List.mem_cons_of_mem _ hj)
    refine ⟨h₂, fun id f' r ha' => ?_, fun j hj => (hfolds₂ j hj).trans ?_⟩
    · obtain ⟨g, hag⟩ := hat₂ id f' r ha'
      exact hat₁ id g r hag
    · rw [hfolds₁ j hj]
      split_ifs <;> simp_all

/-- What the host takes away, it does not bring back. -/
lemma Sheltered.left_dropFolds_subset {ks : List FoldId} (h : s.Sheltered hosts)
    (hks : ∀ k ∈ ks, hosts.get? k ≠ none) : (s.dropFolds ks).left hosts ⊆ s.left hosts := by
  intro q hq
  obtain ⟨k, q', hk, hq'⟩ := mem_left_iff.1 hq
  rw [(h.dropFolds hks).2.2 k (by simp [hk])] at hq'
  split_ifs at hq'
  exact mem_left_iff.2 ⟨k, q', hk, hq'⟩

/-- The folds that are left are those which have not been taken away. -/
lemma Sheltered.mem_left_dropFolds {ks : List FoldId} (h : s.Sheltered hosts)
    (hks : ∀ k ∈ ks, hosts.get? k ≠ none)
    (hpresent : ∀ k q, hosts.get? k = some q → s.editor.folds.get? k = some q) {q : Range} :
    q ∈ (s.dropFolds ks).left hosts ↔ ∃ k, hosts.get? k = some q ∧ k ∉ ks := by
  rw [mem_left_iff]
  refine exists_congr fun k => ?_
  rw [exists_and_left]
  refine and_congr_right fun hk => ?_
  rw [(h.dropFolds hks).2.2 k (by simp [hk]), hpresent k q hk]
  by_cases hmem : k ∈ ks
  · simp [hmem]
  · simp [hmem]

/-- A folding outlives folds of the host exactly if those that are left in the end give it the
breadth it was made with. -/
theorem Sheltered.live_dropFolds_iff {ks : List FoldId} (h : s.Sheltered hosts) (ha : s.At id f r)
    (hholds : s.Holds hosts f r width)
    (hscreen : f.initialScreen.HasBreadth (breadth hosts.values r width))
    (hks : ∀ k ∈ ks, hosts.get? k ≠ none) :
    (∃ f', (s.dropFolds ks).live.get? id = some f') ↔
      breadth ((s.dropFolds ks).left hosts) r width = breadth hosts.values r width := by
  induction ks generalizing s f with
  | nil =>
    have hiff := (h.hosted.live_process_iff h.tracked ha hholds hscreen).1
    rwa [process_of_quiet h.quiet] at hiff
  | cons k ks ih =>
    have hk : hosts.get? k ≠ none := hks k (by simp)
    have hks' : ∀ j ∈ ks, hosts.get? j ≠ none := fun j hj => hks j (List.mem_cons_of_mem _ hj)
    have ht := h.tracked.host (.destroyFold k) trivial
    have hhosted := h.hosted.host_destroyFold hk
    have ha₁ : (s.host fun e => EditorCall.run e (.destroyFold k)).At id f r :=
      ⟨ha.live, (s.host_destroyFold k).2.1 ▸ ha.marker⟩
    have hholds₁ := hholds.host_destroyFold hk
    have hnext := (h.dropFold hk).1
    by_cases hlive : ∃ f', (s.dropFold k).live.get? id = some f'
    · obtain ⟨f', hf'⟩ := hlive
      obtain ⟨ha', hfolds, hinitial⟩ := ht.remains_process.at ha₁ hf'
      exact ih hnext ha' (hholds₁.remains hhosted.standing ht.remains_process ha₁ ha' hfolds)
        (hinitial ▸ hscreen) hks'
    · -- it is gone, and the breadth it was made with does not come back
      refine ⟨fun ⟨f', hf'⟩ => absurd ?_ hlive, fun heq => absurd ?_ hlive⟩
      · obtain ⟨hend, hat, -⟩ := hnext.dropFolds hks'
        obtain ⟨r', ha'⟩ := hend.tracked.exists_at hend.quiet hf'
        obtain ⟨g, hag⟩ := hat id f' r' ha'
        exact ⟨g, hag.live⟩
      · apply (hhosted.live_process_iff ht ha₁ hholds₁ hscreen).1.2
        have hwide : 1 ≤ width := Nat.le_of_lt hholds.wide
        have hle : breadth hosts.values r width ≤
            breadth ((s.host fun e => EditorCall.run e (.destroyFold k)).left hosts) r width :=
          breadth_le_of_subset (left_subset _ hosts) hwide
        have hle' : breadth ((s.dropFold k).left hosts) r width ≤
            breadth ((s.dropFolds (k :: ks)).left hosts) r width :=
          breadth_le_of_subset (hnext.left_dropFolds_subset hks') hwide
        have hsame : breadth ((s.dropFold k).left hosts) r width =
            breadth ((s.host fun e => EditorCall.run e (.destroyFold k)).left hosts) r width :=
          breadth_congr fun q _ => hhosted.mem_left ht.remains_process
        omega

end FoldedEditor

end TemplateFolding
