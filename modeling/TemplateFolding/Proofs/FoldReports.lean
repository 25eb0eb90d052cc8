import TemplateFolding.Proofs.IndexedRows
import TemplateFolding.Proofs.UnderFolds
import TemplateFolding.Source.Report

/-!
# The report on a batch agrees with the scan

Scanning reads the declarations of a text off the text itself. Folding asks the editor for the text
of a range, again for each request, while the requests before it have put folds in place and made
the screen look different. What becomes of a request is nevertheless decided by the text alone, and
the report is the one that can be computed from the entries of the scan.

What is reported as folded is what is folded in the end. The folds for a declaration come after
everything that was folded before, whatever folds the host has, so no folding of a batch is lost to
a later one.
-/

namespace TemplateFolding

open Text Point

/-! ## What becomes of a request -/

/-- What becomes of a request to fold part of a text, where no line length is enforced. -/
def FoldRequest.outcome (t : Text) (q : FoldRequest) : FoldStatus :=
  if (t.slice q.range).contains '\t' then .textHasTabs
  else if q.preview.length ≤ (t.slice q.range).visualLength then .ok
  else .error

/-- What becomes of a request whose preview may be empty. -/
def FoldRequest.status (t : Text) (q : FoldRequest) : FoldStatus :=
  if q.preview.length = 0 then .error else q.outcome t

/-- A request that is granted has room for its preview. -/
lemma FoldRequest.hasRoom_of_status {t : Text} {q : FoldRequest} (hq : t.Holds q.range)
    (hok : q.status t = .ok) : q.HasRoom t := by
  unfold FoldRequest.status FoldRequest.outcome at hok
  split_ifs at hok with hpos htab hfits
  exact ⟨hq.start, hq.stop, Nat.pos_of_ne_zero hpos, hfits⟩

/-- The ends of the range of a request are in order once they are clipped. -/
def FoldRequest.Readable (t : Text) (q : FoldRequest) : Prop :=
  t.clip q.range.start ≤ t.clip q.range.stop

namespace FoldRequest.Readable

variable {t : Text} {q : FoldRequest}

lemma of_holds (h : t.Holds q.range) : q.Readable t := by
  rw [Readable, h.start, h.stop]
  exact h.ordered

lemma slice? (h : q.Readable t) : t.slice? q.range = some (t.slice q.range) := by
  refine if_pos ?_
  rw [← offset_clip t q.range.start, ← offset_clip t q.range.stop]
  exact (offset_le_offset_iff (addressable_clip _ _) (addressable_clip _ _)).2 h

/-- Between the clipped ends of a range stands the same text. -/
lemma slice?_clipRange {e : Editor} (h : q.Readable e.text) :
    e.text.slice? (e.clipRange q.range) = some (e.text.slice q.range) := by
  have hslice : e.text.slice? ⟨e.text.clip q.range.start, e.text.clip q.range.stop⟩ =
      e.text.slice? q.range := by
    unfold Text.slice? Text.slice offset
    rw [addressable_clip, addressable_clip]
  have hordered : e.text.clip q.range.start ≤ e.text.clip q.range.stop := h
  rw [Editor.clipRange, Range.between, if_pos hordered, hslice, h.slice?]

end FoldRequest.Readable

namespace FoldedEditor

variable {s s' : FoldedEditor} {request : FoldRequest} {requests done : List FoldRequest}
  {text : Text} {id : FoldingId} {f : Folding} {r : Range} {info : FoldingInfo}

/-- What the check says about a range is decided by the text. -/
lemma check_status {e : Editor} (h : e.text.Holds request.range) :
    ∃ check, PartialFold.check e request.range request.preview.length none = .ok check ∧
      FoldStatus.ofCheck check = request.status e.text := by
  have hslice : e.read request.range = .ok (e.text.slice request.range) := by
    rw [Editor.read, h.slice?]
  unfold PartialFold.check FoldRequest.status FoldRequest.outcome
  by_cases hpos : request.preview.length = 0
  · rw [if_pos hpos, if_pos hpos]
    exact ⟨_, rfl, rfl⟩
  rw [if_neg hpos, if_neg hpos, hslice]
  simp only [bind, Except.bind, pure, Except.pure]
  split_ifs with htab hwide hfits
  · exact ⟨_, rfl, rfl⟩
  · omega
  · exact ⟨_, rfl, rfl⟩
  · exact ⟨_, rfl, rfl⟩
  · omega

/-- What is configured is no matter of what is queued. -/
lemma settings_process (s : FoldedEditor) : s.process.editor.settings = s.editor.settings := by
  have hconfigured : s.Configured s.editor.settings s.highlighter.enabled := ⟨rfl, rfl⟩
  exact hconfigured.process.1

/-- Making a folding succeeds where there is enough text and soft tabs are off. -/
lemma exists_createFolding (hsoft : s.editor.settings.atomicSoftTabs = false)
    (h : request.Readable s.editor.text)
    (hwidth : request.preview.length ≤ (s.editor.text.slice request.range).visualLength) :
    ∃ info s', s.createFolding request = .ok (info, s') := by
  have htext : s.process.editor.text = s.editor.text := (s.process_leavesHost 0).text
  rw [← s.settings_process] at hsoft
  rw [← htext] at h hwidth
  have hrange : (s.process.editor.createMarker request.range).2.markerRange?
      s.process.editor.nextId = some (s.process.editor.clipRange request.range) := by
    simp [Editor.markerRange?, Editor.createMarker]
  have hread : (s.process.editor.createMarker request.range).2.read
      (s.process.editor.clipRange request.range) =
        .ok (s.process.editor.text.slice request.range) := by
    rw [Editor.read, show (s.process.editor.createMarker request.range).2.text =
      s.process.editor.text from rfl, h.slice?_clipRange]
  have hmade : ∃ made, PartialFold.create (s.process.editor.createMarker request.range).2
      s.process.editor.nextId request.preview.length = .ok made := by
    have hsoft' : (s.process.editor.createMarker request.range).2.settings.atomicSoftTabs =
        false := hsoft
    unfold PartialFold.create
    rw [hsoft', hrange]
    simp only [Bool.false_eq_true, if_false, hread, bind, Except.bind]
    rw [if_neg (Nat.not_lt.2 hwidth)]
    exact ⟨_, rfl⟩
  -- nothing after the folds are in place can fail
  obtain ⟨made, hmade⟩ := hmade
  rw [createFolding_eq, hmade]
  exact ⟨_, _, rfl⟩

/-- A request for a free number is granted or refused as the text decides. -/
lemma foldOne_status (hsoft : s.editor.settings.atomicSoftTabs = false)
    (h : s.editor.text.Holds request.range) (hfree : s.live.get? request.id = none) :
    (request.status s.editor.text = .ok ∧ ∃ info s', s.createFolding request = .ok (info, s') ∧
        s.foldOne none request = .ok (⟨request.id, .ok, some info⟩, s')) ∨
      request.status s.editor.text ≠ .ok ∧ s.foldOne none request =
        .ok (⟨request.id, request.status s.editor.text, none⟩, s) := by
  obtain ⟨check, hcheck, hstatus⟩ := check_status h
  have hcontains : s.live.contains request.id = false := by
    simp [Table.contains, hfree]
  -- the number is free and the text is checked, so what is left to decide is the status
  unfold FoldedEditor.foldOne
  rw [hcontains, hcheck]
  simp only [Bool.false_eq_true, if_false, bind, Except.bind, hstatus]
  by_cases hok : request.status s.editor.text = .ok
  · left
    obtain ⟨info, s', hcreate⟩ :=
      exists_createFolding hsoft (.of_holds h) (FoldRequest.hasRoom_of_status h hok).width
    refine ⟨hok, info, s', hcreate, ?_⟩
    rw [if_pos hok, hcreate, hok]
    rfl
  · right
    refine ⟨hok, ?_⟩
    rw [if_neg hok]
    rfl

/-- A request that is ready is granted or refused as the text decides. -/
lemma foldOne_outcome (hsoft : s.editor.settings.atomicSoftTabs = false)
    (h : request.Ready s.editor.text) (hfree : s.live.get? request.id = none) :
    (request.outcome s.editor.text = .ok ∧ ∃ info s', s.createFolding request = .ok (info, s') ∧
        s.foldOne none request = .ok (⟨request.id, .ok, some info⟩, s')) ∨
      request.outcome s.editor.text ≠ .ok ∧ s.foldOne none request =
        .ok (⟨request.id, request.outcome s.editor.text, none⟩, s) := by
  have hstatus : request.status s.editor.text = request.outcome s.editor.text :=
    if_neg (Nat.ne_of_gt h.pos)
  rw [← hstatus]
  exact foldOne_status hsoft ⟨h.start, h.stop, le_of_lt h.lt⟩ hfree

/-- Making one folding makes no other. -/
lemma live_createFolding (hc : s.createFolding request = .ok (info, s')) (hne : id ≠ request.id)
    (hfree : s.live.get? id = none) : s'.live.get? id = none := by
  obtain ⟨-, hadopt⟩ := createFolding_ok hc
  have hinstalled : (s.installed request).live.get? id = none := live_process hfree
  have hlive := congrArg (fun x : FoldingInfo × FoldedEditor => x.2.live.get? id) hadopt
  dsimp only at hlive
  rw [← hlive]
  exact (Table.get?_insert_of_ne _ _ hne).trans (live_process hinstalled)

/-- Requests for free numbers are all served, each as the text decides, and what holds of the
requests that are done and those that are left is carried through. -/
theorem foldEach_outcomes {P : List FoldRequest → List FoldRequest → FoldedEditor → Prop}
    (hskip : ∀ done q rest t, P done (q :: rest) t → q.outcome text ≠ .ok → P (done ++ [q]) rest t)
    (hmake : ∀ done q rest t t' info, P done (q :: rest) t → q.outcome text = .ok →
      t.live.get? q.id = none → t.createFolding q = .ok (info, t') → P (done ++ [q]) rest t')
    (htext : s.editor.text = text) (hsoft : s.editor.settings.atomicSoftTabs = false)
    (hready : ∀ q ∈ requests, q.Ready text)
    (hdistinct : requests.Pairwise fun q q' => q'.id ≠ q.id)
    (hfree : ∀ q ∈ requests, s.live.get? q.id = none) (hP : P done requests s) :
    ∃ results s', s.foldEach none requests = .ok (results, s') ∧
      results.map (·.status) = requests.map (·.outcome text) ∧ P (done ++ requests) [] s' := by
  -- the requests that are left get fewer, and the state and what is done go along
  induction requests generalizing s done with
  | nil => exact ⟨[], s, rfl, rfl, by rwa [List.append_nil]⟩
  | cons q rest ih =>
    obtain ⟨hnew, hdistinct⟩ := List.pairwise_cons.1 hdistinct
    have hready' : ∀ q ∈ rest, q.Ready text := fun p hp => hready p (List.mem_cons_of_mem _ hp)
    have hq : q.Ready s.editor.text := htext ▸ hready q (List.mem_cons_self ..)
    rw [show done ++ q :: rest = (done ++ [q]) ++ rest by simp]
    unfold FoldedEditor.foldEach
    rcases foldOne_outcome hsoft hq (hfree q (List.mem_cons_self ..)) with
      ⟨hok, info, t, hcreate, hone⟩ | ⟨hrefused, hone⟩
    · rw [htext] at hok
      have hleaves := (createFolding_leavesHost hcreate (Nat.zero_le _)).1
      have hconfigured : s.Configured s.editor.settings s.highlighter.enabled := ⟨rfl, rfl⟩
      have hsettings := (hconfigured.createFolding hcreate).1
      obtain ⟨results, s', heach, hstatuses, hlast⟩ := ih (hleaves.text.trans htext)
        (by rw [hsettings]; exact hsoft) hready' hdistinct
        (fun p hp => live_createFolding hcreate (hnew p hp) (hfree p (List.mem_cons_of_mem _ hp)))
        (hmake done q rest s t info hP hok (hfree q (List.mem_cons_self ..)) hcreate)
      refine ⟨⟨q.id, .ok, some info⟩ :: results, s', ?_, ?_, hlast⟩
      · simp only [hone, heach, bind, Except.bind, pure, Except.pure]
      · rw [List.map_cons, List.map_cons, hstatuses, hok]
    · rw [htext] at hrefused hone
      obtain ⟨results, s', heach, hstatuses, hlast⟩ := ih htext hsoft hready' hdistinct
        (fun p hp => hfree p (List.mem_cons_of_mem _ hp)) (hskip done q rest s hP hrefused)
      refine ⟨⟨q.id, q.outcome text, none⟩ :: results, s', ?_, ?_, hlast⟩
      · simp only [hone, heach, bind, Except.bind, pure, Except.pure]
      · rw [List.map_cons, List.map_cons, hstatuses]

/-- The state that a batch leaves when its requests have led to `t`. -/
def batchEnd (s t : FoldedEditor) : FoldedEditor :=
  { t with
    highlighter := t.highlighter.resume s.process.highlighter.suspend.1
    editor := t.editor.setAtomicSoftTabs s.process.editor.settings.atomicSoftTabs }

/-- Where the settings allow folding, a batch is served as its requests are. -/
lemma foldAll_of_allowed {maxLineLength : Option Nat} {t : FoldedEditor}
    {results : List FoldResult} (hmax : s.editor.settings.maxLineLength = .ok maxLineLength)
    (heach : s.batchStart.foldEach maxLineLength requests = .ok (results, t)) :
    s.foldAll requests = .ok (results, s.batchEnd t) := by
  unfold FoldedEditor.foldAll
  rw [hmax]
  dsimp only
  split
  · rename_i fault hfault
    exact absurd (heach.symm.trans hfault) (by simp)
  · rename_i results' t' heach'
    obtain ⟨rfl, rfl⟩ := Prod.mk.inj (Except.ok.inj (heach.symm.trans heach'))
    rfl

/-- A batch whose requests are all answered ends with the answers. -/
lemma foldAll_of_foldEach (hwrap : s.editor.settings.softWrap = false) {t : FoldedEditor}
    {results : List FoldResult} (heach : s.batchStart.foldEach none requests = .ok (results, t)) :
    s.foldAll requests = .ok (results, s.batchEnd t) := by
  refine foldAll_of_allowed ?_ heach
  unfold Settings.maxLineLength
  rw [hwrap]

/-- A batch into an editor without foldings and without a limit to the length of lines is served. -/
theorem foldAll_outcomes {P : List FoldRequest → List FoldRequest → FoldedEditor → Prop}
    (hskip : ∀ done q rest t, P done (q :: rest) t → q.outcome s.editor.text ≠ .ok →
      P (done ++ [q]) rest t)
    (hmake : ∀ done q rest t t' info, P done (q :: rest) t → q.outcome s.editor.text = .ok →
      t.live.get? q.id = none → t.createFolding q = .ok (info, t') → P (done ++ [q]) rest t')
    (hwrap : s.editor.settings.softWrap = false) (hready : ∀ q ∈ requests, q.Ready s.editor.text)
    (hascending : FoldRequest.Ascending requests) (hnone : ∀ id, s.live.get? id = none)
    (hP : P [] requests s.batchStart) :
    ∃ results t, s.foldAll requests = .ok (results, s.batchEnd t) ∧
      results.map (·.status) = requests.map (·.outcome s.editor.text) ∧ P requests [] t := by
  have hdistinct : requests.Pairwise fun q q' => q'.id ≠ q.id :=
    hascending.imp fun h => Nat.ne_of_gt h.1
  obtain ⟨results, t, heach, hstatuses, hlast⟩ := foldEach_outcomes hskip hmake
    (s := s.batchStart) (s.process_leavesHost 0).text rfl hready hdistinct
    (fun q _ => live_process (hnone q.id)) hP
  exact ⟨results, t, foldAll_of_foldEach hwrap heach, hstatuses, hlast⟩

lemma settings_unfoldAll (s : FoldedEditor) :
    s.unfoldAll.editor.settings = s.editor.settings := by
  have hconfigured : s.Configured s.editor.settings s.highlighter.enabled := ⟨rfl, rfl⟩
  exact hconfigured.unfoldAll.1

/-! ## Nothing is lost on the way -/

/-- A batch into an editor without foldings: what is folded in the end is what was asked for and
could be granted. -/
theorem Tracked.rangeOf?_foldAll_iff (ht : s.Tracked []) (hnone : ∀ id, s.live.get? id = none)
    (hwrap : s.editor.settings.softWrap = false)
    (hrequests : ∀ q ∈ requests, q.Ready s.editor.text ∧
      ∃ x : Text, x.Firm ∧ s.editor.text.StandsAt x q.range)
    (hascending : FoldRequest.Ascending requests) :
    (∀ id r, (s.afterBatch requests).rangeOf? id = some r ↔
      ∃ q ∈ requests, q.outcome s.editor.text = .ok ∧ q.id = id ∧ q.range = r) ∧
    (s.afterBatch requests).live.size =
      requests.countP fun q => q.outcome s.editor.text == .ok := by
  -- what is folded is what was granted among the requests that are done
  have hstart : s.batchStart.Batch requests :=
    ht.batch_batchStart (fun id f hf => absurd ((hnone id).symm.trans hf) (by simp)) hrequests
      hascending
  have hempty : ∀ id f r, ¬s.batchStart.At id f r := fun id f r ha =>
    absurd ((live_process (hnone id)).symm.trans ha.live) (by simp)
  obtain ⟨results, t, hall, -, hbatch, hat⟩ := foldAll_outcomes (P := fun done left t =>
      t.Batch left ∧ ∀ id r, (∃ f, t.At id f r) ↔
        ∃ q ∈ done, q.outcome s.editor.text = .ok ∧ q.id = id ∧ q.range = r)
    (fun done q rest t ⟨hbatch, hat⟩ hrefused => ⟨hbatch.skip, fun id r => by simp [hat, hrefused]⟩)
    (fun done q rest t t' info ⟨hbatch, hat⟩ hok hid hcreate =>
      ⟨hbatch.createFolding hid hcreate, fun id r => by
        simp [hbatch.at_createFolding_iff hid hcreate, hat, hok, or_and_right, exists_or,
          eq_comm]⟩)
    hwrap (fun q hq => (hrequests q hq).1) hascending hnone
    ⟨hstart, fun id r => by simp [hempty]⟩
  obtain ⟨ht', hq'⟩ := ht.foldAll hall
  have hafter : s.afterBatch requests = s.batchEnd t := by
    unfold FoldedEditor.afterBatch
    rw [hall]
  have hrange : ∀ id r, (s.batchEnd t).rangeOf? id = some r ↔
      ∃ q ∈ requests, q.outcome s.editor.text = .ok ∧ q.id = id ∧ q.range = r := by
    intro id r
    rw [← hat]
    constructor
    · intro hr
      obtain ⟨f, ha⟩ := ht'.at_of_rangeOf? hq' hr
      exact ⟨f, ha.live, ha.marker⟩
    · rintro ⟨f, ha⟩
      exact At.rangeOf? (s := s.batchEnd t) ⟨ha.live, ha.marker⟩
  refine ⟨by rwa [hafter], ?_⟩
  -- the numbers of the requests are all different
  have hids : ((requests.filter fun q => q.outcome s.editor.text == .ok).map (·.id)).Nodup := by
    refine List.pairwise_map.2 ((hascending.filter _).imp fun h => ?_)
    exact Nat.ne_of_lt h.1
  have hcount : requests.countP (fun q => q.outcome s.editor.text == .ok) =
      ((requests.filter fun q => q.outcome s.editor.text == .ok).map (·.id)).length := by
    rw [List.length_map, List.countP_eq_length_filter]
  rw [hafter, hcount]
  refine Table.size_eq_length hids fun id => ?_
  simp only [List.mem_map, List.mem_filter, beq_iff_eq, and_assoc]
  constructor
  · rintro ⟨f, hf⟩
    obtain ⟨r, ha⟩ := ht'.exists_at hq' hf
    obtain ⟨q, hq, hok, hid, -⟩ := (hrange id r).1 ha.rangeOf?
    exact ⟨q, hq, hok, hid⟩
  · rintro ⟨q, hq, hok, hid⟩
    obtain ⟨f, ha⟩ := ht'.at_of_rangeOf? hq' ((hrange id q.range).2 ⟨q, hq, hok, hid, rfl⟩)
    exact ⟨f, ha.live⟩

end FoldedEditor

/-! ## Entries and requests -/

/-- What stands in the range of a firm text is that text. -/
lemma Text.StandsAt.slice_eq {t x : Text} {r : Range} (h : t.StandsAt x r) (hx : x.Firm) :
    t.slice r = x := by
  obtain ⟨u, v, rfl, rfl⟩ := h
  have hstart := (hx.cleanSeam_left u v).addressable.2
  have hstop := (hx.cleanSeam_right u v).addressable.2
  rw [List.append_assoc] at hstop
  unfold Text.slice
  rw [hstart, hstop, List.length_append, List.drop_left, Nat.add_sub_cancel_left, List.take_left]

/-- The text of a declaration is what stands in its range. -/
lemma Finding.slice_range {t : Text} {f : Finding} (h : f ∈ all t) :
    t.slice f.occurrence.range = f.source := by
  obtain ⟨passed, d, hsplit, hparse, rfl⟩ := mem_allFrom [] h
  have hstands : t.StandsAt d.source (behind ([] ++ passed) d).occurrence.range :=
    ⟨passed, d.rest, hsplit, rfl⟩
  exact hstands.slice_eq (Declaration.firm_source hparse)

namespace Entry

/-- The declaration can be folded: it has a preview, no tabs, and room for the preview. -/
def foldable (t : Text) (e : Entry) : Bool :=
  e.preview.any fun p => !(t.slice e.range).contains '\t' && decide (p.length ≤ e.visualLength)

/-- Why a declaration that cannot be folded is refused. -/
def refusal (t : Text) (e : Entry) : FoldStatus :=
  if (t.slice e.range).contains '\t' then .textHasTabs else .error

/-- What becomes of a declaration that has a preview. -/
def outcome (t : Text) (e : Entry) : FoldStatus :=
  if e.foldable t then .ok else e.refusal t

variable {t : Text} {f : Finding} {p : Preview} {e : Entry}

/-- A declaration is granted exactly if it can be folded. -/
lemma beq_outcome (t : Text) (e : Entry) : (e.outcome t == .ok) = e.foldable t := by
  unfold outcome refusal
  cases e.foldable t
  · cases (t.slice e.range).contains '\t' <;> rfl
  · rfl

lemma isSome_of_foldable (h : e.foldable t = true) : e.preview.isSome = true := by
  obtain ⟨hp, -⟩ := (Option.any_eq_true_iff_get _ _).1 h
  exact hp

/-- A request for a declaration fares as its entry says. -/
lemma outcome_ofOccurrence (hf : t.slice f.occurrence.range = f.source)
    (hp : Preview.ofParams f.occurrence.params = .ok p) (id : FoldingId) :
    FoldRequest.outcome t ⟨id, f.occurrence.range, p.text⟩ =
      (ofOccurrence f.source f.occurrence).outcome t := by
  have hpreview : (ofOccurrence f.source f.occurrence).preview = some p.text := by
    simp only [ofOccurrence, hp]
  unfold FoldRequest.outcome outcome foldable refusal
  rw [hpreview, Option.any_some]
  simp only [ofOccurrence, hf]
  by_cases hfits : p.text.length ≤ f.source.visualLength <;>
    cases f.source.contains '\t' <;> simp [hfits]

end Entry

namespace AutoFolder

variable {t : Text} {requests : List FoldRequest} {results : List FoldResult}

/-- The requests for declarations are their entries with a preview, in order. -/
lemma map_requestsFor {fs : List Finding} (hfs : ∀ f ∈ fs, t.slice f.occurrence.range = f.source)
    (id : FoldingId) :
    (requestsFor id (fs.map (·.occurrence))).map (fun q => (q.range, q.outcome t)) =
      ((fs.map fun f => Entry.ofOccurrence f.source f.occurrence).filter (·.preview.isSome)).map
        fun e => (e.range, e.outcome t) := by
  induction fs generalizing id with
  | nil => rfl
  | cons f fs ih =>
    obtain ⟨hf, hfs⟩ := List.forall_mem_cons.1 hfs
    rw [List.map_cons, List.map_cons, requestsFor]
    cases hp : Preview.ofParams f.occurrence.params with
    | error refusal =>
      -- no request is made, and the entry is passed over
      have hpreview : (Entry.ofOccurrence f.source f.occurrence).preview.isSome = false := by
        simp [Entry.ofOccurrence, hp]
      rw [List.filter_cons_of_neg (by simp [hpreview])]
      exact ih hfs id
    | ok p =>
      have hpreview : (Entry.ofOccurrence f.source f.occurrence).preview.isSome = true := by
        simp [Entry.ofOccurrence, hp]
      rw [List.filter_cons_of_pos (by exact hpreview)]
      simp only [List.map_cons]
      rw [ih hfs (id + 1), Entry.outcome_ofOccurrence hf hp id]
      rfl

/-- The requests for a text and what becomes of them can be read off the entries of the scan. -/
lemma map_requestsFor_all (id : FoldingId) (t : Text) :
    (requestsFor id (Occurrence.all t)).map (fun q => (q.range, q.outcome t)) =
      ((Entry.all t).filter (·.preview.isSome)).map fun e => (e.range, e.outcome t) :=
  map_requestsFor (fun _ => Finding.slice_range) id

/-- What a batch reports is read off the ranges of its requests and what became of them. -/
lemma report_eq (skipped : Nat) (h : results.map (·.status) = requests.map (·.outcome t)) :
    report skipped requests results =
      { folded := (requests.map fun q => (q.range, q.outcome t)).countP (·.2 == .ok)
        skipped
        failures := (requests.map fun q => (q.range, q.outcome t)).filterMap fun (r, status) =>
          if status == .ok then none else some ⟨r.start.row, status⟩ } := by
  unfold report FoldResult.isFolded
  induction requests generalizing results with
  | nil =>
    obtain rfl := List.map_eq_nil_iff.1 h
    rfl
  | cons q rest ih =>
    obtain ⟨result, later, rfl, hstatus, hlater⟩ := List.map_eq_cons_iff.1 h
    obtain ⟨hfolded, -, hfailures⟩ := FoldReport.mk.inj (ih hlater)
    simp only [List.countP_cons, List.zip_cons_cons, List.filterMap_cons, List.map_cons, hstatus,
      hfolded, hfailures]

end AutoFolder

namespace Entry

variable (t : Text) (entries : List Entry)

/-- As many requests are granted as declarations can be folded. -/
lemma countP_outcome : (entries.filter (·.preview.isSome)).countP (fun e => e.outcome t == .ok) =
    entries.countP (·.foldable t) := by
  rw [List.countP_filter]
  refine List.countP_congr fun e _ => ?_
  rw [beq_outcome, Bool.and_eq_true]
  exact and_iff_left_of_imp isSome_of_foldable

/-- The entries that have a preview and cannot be folded, as failures. -/
lemma filterMap_outcome :
    ((entries.filter (·.preview.isSome)).filterMap fun e =>
      if e.outcome t == .ok then none else some (⟨e.range.start.row, e.outcome t⟩ : FoldFailure)) =
    (entries.filter fun e => e.preview.isSome && !e.foldable t).map fun e =>
      ⟨e.range.start.row, e.refusal t⟩ := by
  rw [← List.filterMap_eq_map, List.filterMap_filter, List.filterMap_filter]
  refine List.filterMap_congr fun e _ => ?_
  rw [beq_outcome]
  cases hfoldable : e.foldable t <;> simp [outcome, hfoldable]

/-- Every entry can be folded, is refused, or has no preview. -/
lemma countP_cases : entries.countP (·.foldable t) + entries.countP (·.preview.isNone) +
    (entries.filter fun e => e.preview.isSome && !e.foldable t).length = entries.length := by
  induction entries with
  | nil => rfl
  | cons e entries ih =>
    have hnone : e.preview.isNone = !e.preview.isSome := by cases e.preview <;> rfl
    have hfoldable := isSome_of_foldable (t := t) (e := e)
    rw [List.countP_cons, List.countP_cons, List.filter_cons, List.length_cons, ← ih]
    grind

end Entry

namespace AutoFolder

variable {a : AutoFolder} {t : Text} {results : List FoldResult}

/-- Declarations stand in different places. -/
lemma nodup_ranges (t : Text) : ((Entry.all t).map (·.range)).Nodup := by
  have hranges : (Entry.all t).map (·.range) = (Occurrence.all t).map (·.range) := by
    rw [Entry.all, Occurrence.all, List.map_map, List.map_map]
    rfl
  have hlaid := (Occurrence.laid_all t).1
  rw [hranges]
  refine hlaid.pairwise.imp_of_mem fun {r r'} hr _ hle heq => ?_
  have hlt := (hlaid.mem hr).2.1
  rw [heq] at hle
  exact absurd (lt_of_lt_of_le (heq ▸ hlt) hle) (lt_irrefl _)

/-- The report that goes with the entries of a scan. -/
def reportOf (t : Text) (entries : List Entry) : FoldReport where
  folded := entries.countP (·.foldable t)
  skipped := entries.countP (·.preview.isNone)
  failures := (entries.filter fun e => e.preview.isSome && !e.foldable t).map fun e =>
    ⟨e.range.start.row, e.refusal t⟩

/-- Answers that are as the text decides are reported as the entries of the scan say. -/
lemma report_requestsFor (id : FoldingId)
    (h : results.map (·.status) =
      (requestsFor id (Occurrence.all t)).map (·.outcome t)) :
    report ((Occurrence.all t).length - (requestsFor id (Occurrence.all t)).length)
      (requestsFor id (Occurrence.all t)) results = reportOf t (Entry.all t) := by
  have hmap := map_requestsFor_all id t
  have hskipped : (Occurrence.all t).length - (requestsFor id (Occurrence.all t)).length =
      (Entry.all t).countP (·.preview.isNone) := by
    have hrequests := congrArg List.length hmap
    have hall : (Occurrence.all t).length = (Entry.all t).length := by
      simp only [Entry.all, Occurrence.all, List.length_map]
    have hsplit := List.length_eq_countP_add_countP (·.preview.isSome) (l := Entry.all t)
    simp only [List.length_map, ← List.countP_eq_length_filter] at hrequests
    simp only [Bool.not_eq_true, Option.isSome_eq_false_iff] at hsplit
    simp only [hall, hrequests, hsplit, Nat.add_sub_cancel_left, Bool.decide_eq_true]
  rw [report_eq _ h, hskipped, hmap, List.countP_map, List.filterMap_map]
  exact congrArg₂ (FoldReport.mk · _ ·) (Entry.countP_outcome t (Entry.all t))
    (Entry.filterMap_outcome t (Entry.all t))

/-- Folding everything is served, and what it reports can be read off the entries. -/
lemma foldAll_eq (a : AutoFolder) (hwrap : a.folded.editor.settings.softWrap = false) :
    a.foldAll = (.ok (reportOf a.folded.editor.text (Entry.all a.folded.editor.text)),
      { folded := a.folded.unfoldAll.afterBatch
          (requestsFor a.nextId (Occurrence.all a.folded.editor.text))
        nextId := a.nextId +
          (requestsFor a.nextId (Occurrence.all a.folded.editor.text)).length }) := by
  have htext : a.folded.unfoldAll.editor.text = a.folded.editor.text :=
    (a.folded.unfoldAll_leavesHost 0).text
  obtain ⟨hready, hascending⟩ := requestsFor_all a.nextId a.folded.editor.text
  obtain ⟨results, t, hall, hstatuses, -⟩ := FoldedEditor.foldAll_outcomes
    (P := fun _ _ _ => True) (fun _ _ _ _ h _ => h) (fun _ _ _ _ _ _ h _ _ _ => h)
    ((a.folded.settings_unfoldAll).symm ▸ hwrap) (htext ▸ hready) hascending
    a.folded.live_unfoldAll trivial
  rw [htext] at hstatuses
  unfold AutoFolder.foldAll FoldedEditor.afterBatch
  dsimp only
  rw [htext, hall, ← report_requestsFor a.nextId hstatuses]

/-- The requests that are granted are those for the entries that can be folded. -/
lemma granted_requestsFor (id : FoldingId) (t : Text) (r : Range) :
    (∃ q ∈ requestsFor id (Occurrence.all t), q.outcome t = .ok ∧ q.range = r) ↔
      ∃ e ∈ Entry.all t, e.foldable t = true ∧ e.range = r := by
  have hmem : (r, FoldStatus.ok) ∈
        (requestsFor id (Occurrence.all t)).map (fun q => (q.range, q.outcome t)) ↔
      (r, FoldStatus.ok) ∈
        ((Entry.all t).filter (·.preview.isSome)).map fun e => (e.range, e.outcome t) := by
    rw [map_requestsFor_all]
  simp only [List.mem_map, List.mem_filter, Prod.mk.injEq] at hmem
  constructor
  · rintro ⟨q, hq, hok, hr⟩
    obtain ⟨e, ⟨he, -⟩, hrange, houtcome⟩ := hmem.1 ⟨q, hq, hr, hok⟩
    exact ⟨e, he, by rw [← Entry.beq_outcome, houtcome]; rfl, hrange⟩
  · rintro ⟨e, he, hfoldable, hr⟩
    have houtcome : e.outcome t = .ok := by
      rw [← Entry.beq_outcome] at hfoldable
      exact beq_iff_eq.1 hfoldable
    obtain ⟨q, hq, hrange, hok⟩ :=
      hmem.2 ⟨e, ⟨he, Entry.isSome_of_foldable hfoldable⟩, hr, houtcome⟩
    exact ⟨q, hq, hok, hrange⟩

/-- What is folded in the end is what the entries say, for foldings that the host and the folder
have led to. -/
lemma rangeOf?_foldAll_iff (ha : a.folded.Interleaved)
    (hwrap : a.folded.editor.settings.softWrap = false) :
    a.foldAll.2.folded.live.size =
        (Entry.all a.folded.editor.text).countP (·.foldable a.folded.editor.text) ∧
      ∀ r, (∃ id, a.foldAll.2.folded.rangeOf? id = some r) ↔
        ∃ e ∈ Entry.all a.folded.editor.text,
          e.foldable a.folded.editor.text = true ∧ e.range = r := by
  rw [foldAll_eq a hwrap]
  rw [← a.folded.settings_unfoldAll] at hwrap
  have htext : a.folded.unfoldAll.editor.text = a.folded.editor.text :=
    (a.folded.unfoldAll_leavesHost 0).text
  -- what is drawn has no part in it, so a state that differs in that alone will do
  obtain ⟨t, hdrawn, hfiled⟩ := ha.unfoldAll.exists_filed
  have hsame : t.editor.text = a.folded.editor.text := hdrawn.1.text.trans htext
  have hnone : ∀ id, t.live.get? id = none := fun id => by
    rw [hdrawn.live, a.folded.live_unfoldAll]
  obtain ⟨hready, hascending⟩ := requestsFor_all a.nextId a.folded.editor.text
  obtain ⟨hrange, hsize⟩ := hfiled.tracked.rangeOf?_foldAll_iff hnone (hdrawn.1.settings ▸ hwrap)
    (fun q hq => hsame ▸ ⟨hready q hq, Occurrence.standsAt (mem_requestsFor hq).2.1⟩) hascending
  have hend := hdrawn.afterBatch (requestsFor a.nextId (Occurrence.all a.folded.editor.text))
  simp only [hend.rangeOf?, hsame] at hrange
  rw [hend.live, hsame] at hsize
  refine ⟨hsize.trans ?_, fun r => ?_⟩
  · have hcount := congrArg (List.countP (·.2 == FoldStatus.ok))
      (map_requestsFor_all a.nextId a.folded.editor.text)
    rw [List.countP_map, List.countP_map] at hcount
    exact hcount.trans (Entry.countP_outcome _ _)
  · rw [← granted_requestsFor a.nextId]
    simp only [hrange]
    exact ⟨fun ⟨_, q, hq, hok, _, hr⟩ => ⟨q, hq, hok, hr⟩,
      fun ⟨q, hq, hok, hr⟩ => ⟨q.id, q, hq, hok, rfl, hr⟩⟩

/-- **The report agrees with the scan.** Where lines are not wrapped, every declaration that has a
preview is folded, except for those with tabs in them and those that are shorter than the preview.
The report gives the numbers and lists the exceptions in order. For foldings that the host and the
folder have led to in any way, what it counts as folded is what is folded in the end. -/
theorem foldAll_report (a : AutoFolder) (hwrap : a.folded.editor.settings.softWrap = false) :
    let text := a.folded.editor.text
    let entries := Entry.all text
    (∃ report, a.foldAll.1 = .ok report ∧
      report.skipped = entries.countP (·.preview.isNone) ∧
      report.folded = entries.countP (·.foldable text) ∧
      report.failures = (entries.filter fun e => e.preview.isSome && !e.foldable text).map
        (fun e => ⟨e.range.start.row, e.refusal text⟩) ∧
      report.folded + report.skipped + report.failures.length = entries.length) ∧
    (a.folded.Interleaved →
      a.foldAll.2.folded.live.size = entries.countP (·.foldable text) ∧
      ∀ e ∈ entries, (∃ id, a.foldAll.2.folded.rangeOf? id = some e.range) ↔
        e.foldable text = true) := by
  intro text entries
  refine ⟨⟨reportOf text entries, by rw [foldAll_eq a hwrap], rfl, rfl, rfl, ?_⟩, fun ha => ?_⟩
  · show _ + _ + (List.map _ _).length = _
    rw [List.length_map]
    exact Entry.countP_cases text entries
  · obtain ⟨hsize, hrange⟩ := rangeOf?_foldAll_iff ha hwrap
    refine ⟨hsize, fun e he => (hrange e.range).trans ⟨?_, fun h => ⟨e, he, h, rfl⟩⟩⟩
    rintro ⟨e', he', hfoldable, hsame⟩
    -- no two declarations stand in one place
    obtain rfl := List.inj_on_of_nodup_map (nodup_ranges text) he' he hsame
    exact hfoldable

/-- Four declarations: one has no preview, one is folded in spite of a fold of the host that ends
inside it, one has a tab in it, and one is shorter than its preview. -/
theorem foldAll_report_mixed :
    let start : FoldedEditor := { editor := { text := ("template<> a;\r\ntemplate<class T> b;\n" ++
      "template<class\tU> c;\ntemplate<A,B,C,D,E,F,class> d;").toList } }
    let a : AutoFolder := { folded := start.host (EditorCall.fold ⟨⟨0, 3⟩, ⟨1, 5⟩⟩).run }
    a.folded.editor.settings.softWrap = false ∧ a.folded.Interleaved ∧
      a.foldAll.1 = .ok ⟨1, 1, [⟨2, .textHasTabs⟩, ⟨3, .error⟩]⟩ ∧
      a.foldAll.2.folded.live.size = 1 ∧
      ∃ id, a.foldAll.2.folded.rangeOf? id = some ⟨⟨1, 0⟩, ⟨1, 17⟩⟩ := by
  intro start a
  have ha : a.folded.Interleaved := .host (.start _ _) trivial
  obtain ⟨⟨⟨folded, skipped, failures⟩, hreport, hskipped, hfolded, hfailures, -⟩, hlive⟩ :=
    foldAll_report a rfl
  obtain ⟨hsize, hentries⟩ := hlive ha
  obtain ⟨hnone, hcount, hrefused, e, he, hrange, hfoldable⟩ :
      (Entry.all a.folded.editor.text).countP (·.preview.isNone) = 1 ∧
      (Entry.all a.folded.editor.text).countP (·.foldable a.folded.editor.text) = 1 ∧
      ((Entry.all a.folded.editor.text).filter fun e =>
        e.preview.isSome && !e.foldable a.folded.editor.text).map
          (fun e => (⟨e.range.start.row, e.refusal a.folded.editor.text⟩ : FoldFailure)) =
        [⟨2, .textHasTabs⟩, ⟨3, .error⟩] ∧
      ∃ e ∈ Entry.all a.folded.editor.text,
        e.range = ⟨⟨1, 0⟩, ⟨1, 17⟩⟩ ∧ e.foldable a.folded.editor.text = true := by
    decide +kernel
  obtain ⟨rfl, rfl, rfl⟩ : skipped = 1 ∧ folded = 1 ∧
      failures = [⟨2, .textHasTabs⟩, ⟨3, .error⟩] :=
    ⟨hskipped.trans hnone, hfolded.trans hcount, hfailures.trans hrefused⟩
  exact ⟨rfl, ha, hreport, hsize.trans hcount, hrange ▸ (hentries e he).2 hfoldable⟩

end AutoFolder

end TemplateFolding
