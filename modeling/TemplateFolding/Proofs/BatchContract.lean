import TemplateFolding.Proofs.FoldReports

/-!
# Batches keep the contract of folding

A marker is folded down to a width only when atomic soft tabs are off, the marker is there, and its
text is wide enough. A request is checked on the range as it was given, before what is queued is
applied; the folds are made on the range of a marker that is created afterwards. The check is good
for them all the same: nothing that is applied changes the text or the settings, and the marker
stands on the clipped ends of the range, between which the same text stands.

A batch that is refused leaves no trace. To say so, batches are described a second time, working in
place: what has been done is not undone by a failure, and what a batch switches off is switched on
again however it ends. A batch that is served comes to the same state both ways.
-/

namespace TemplateFolding

open Text

/-! ## Batches that are not served -/

namespace FoldedEditor

variable {s : FoldedEditor}

/-- With settings that are not supported a batch is refused. -/
lemma foldAll_of_refused {fault : UnsupportedSoftWrap}
    (hmax : s.editor.settings.maxLineLength = .error fault) (requests : List FoldRequest) :
    s.foldAll requests = .error (.settings fault) := by
  unfold foldAll
  rw [hmax]

/-- A batch with a request that breaks a contract fails. -/
lemma foldAll_of_fault {maxLineLength : Option Nat} {requests : List FoldRequest}
    {fault : ContractFault} (hmax : s.editor.settings.maxLineLength = .ok maxLineLength)
    (heach : s.batchStart.foldEach maxLineLength requests = .error fault) :
    s.foldAll requests = .error (.contract fault) := by
  unfold foldAll
  rw [hmax]
  dsimp only
  split
  · rename_i fault' hfault
    rw [Except.error.inj (heach.symm.trans hfault)]
  · rename_i hserved
    exact absurd (heach.symm.trans hserved) (by simp)

end FoldedEditor

/-! ## Batches in place -/

/-- A step on an editor with its foldings. One that fails leaves what it has done so far. -/
abbrev InPlace := EStateM BatchFault FoldedEditor

namespace InPlace

/-- A call that has a contract. -/
def demand {α : Type} : Except ContractFault α → InPlace α
  | .ok a => pure a
  | .error fault => throw (.contract fault)

/-- An operation of the editor. -/
def edit {α : Type} (f : Editor → α × Editor) : InPlace α :=
  modifyGet fun s => ((f s.editor).1, { s with editor := (f s.editor).2 })

/-- Makes a folding for a request that has passed the checks. -/
def createFolding (request : FoldRequest) : InPlace FoldingInfo := do
  modify FoldedEditor.process
  let marker ← edit fun e => e.createMarker request.range
  let (folds, editor) ← demand (PartialFold.create (← get).editor marker request.preview.length)
  edit fun _ => ((), editor)
  let label ← edit fun e => Label.create e marker request.preview
  modify FoldedEditor.process
  modifyGet fun s => s.adopt request marker folds label

/-- Serves one request. -/
def foldOne (maxLineLength : Option Nat) (request : FoldRequest) : InPlace FoldResult := do
  if (← get).live.contains request.id then
    return ⟨request.id, .error, none⟩
  let check ← demand
    (PartialFold.check (← get).editor request.range request.preview.length maxLineLength)
  if FoldStatus.ofCheck check = .ok then
    let info ← createFolding request
    return ⟨request.id, .ok, some info⟩
  return ⟨request.id, .ofCheck check, none⟩

/-- Serves requests one after the other. -/
def foldEach (maxLineLength : Option Nat) : List FoldRequest → InPlace (List FoldResult)
  | [] => return []
  | request :: rest => do
    let result ← foldOne maxLineLength request
    let results ← foldEach maxLineLength rest
    return result :: results

/-- Runs a step with highlighting suspended and atomic soft tabs off, and restores both however it
ends. -/
def undisturbed {α : Type} (step : InPlace α) : InPlace α := do
  let s ← get
  modify fun s => { s with
    highlighter := s.highlighter.suspend.2, editor := s.editor.setAtomicSoftTabs false }
  try step
  finally
    modify fun t => { t with
      highlighter := t.highlighter.resume s.highlighter.suspend.1
      editor := t.editor.setAtomicSoftTabs s.editor.settings.atomicSoftTabs }

/-- Serves a batch of requests. -/
def foldAll (requests : List FoldRequest) : InPlace (List FoldResult) := do
  match (← get).editor.settings.maxLineLength with
  | .error fault => throw (.settings fault)
  | .ok maxLineLength =>
    modify FoldedEditor.process
    undisturbed (foldEach maxLineLength requests)

/-! ## Both descriptions agree -/

section Returned

variable {α β : Type} (s : FoldedEditor)

/-- What a step comes to, without the state that a failure leaves. -/
def returned (step : InPlace α) : Except BatchFault (α × FoldedEditor) :=
  match step.run s with
  | .ok a s' => .ok (a, s')
  | .error fault _ => .error fault

lemma run_of_returned {step : InPlace α} {a : α} {s' : FoldedEditor}
    (h : returned s step = .ok (a, s')) : step.run s = .ok a s' := by
  unfold returned at h
  split at h
  · rename_i hrun
    obtain ⟨rfl, rfl⟩ := Prod.mk.inj (Except.ok.inj h)
    exact hrun
  · exact absurd h (by simp)

/-- What one step after the other comes to. -/
lemma returned_bind (step : InPlace α) (next : α → InPlace β) :
    returned s (step >>= next) = (returned s step).bind fun r => returned r.2 (next r.1) := by
  unfold returned
  rw [EStateM.run_bind]
  cases step.run s <;> rfl

lemma returned_demand (call : Except ContractFault α) :
    returned s (demand call) = (call.mapError BatchFault.contract).map (·, s) := by
  cases call <;> rfl

/-- Making a folding in place comes to what making one comes to. -/
lemma returned_createFolding (request : FoldRequest) :
    returned s (createFolding request) =
      (s.createFolding request).mapError BatchFault.contract := by
  rw [FoldedEditor.createFolding_eq]
  unfold createFolding
  simp only [returned_bind, returned_demand]
  -- of all the steps only the folding of the marker can fail
  show Except.bind (Except.map _ (Except.mapError BatchFault.contract
    (PartialFold.create (s.process.editor.createMarker request.range).2
      s.process.editor.nextId request.preview.length))) _ = _
  cases PartialFold.create (s.process.editor.createMarker request.range).2
    s.process.editor.nextId request.preview.length <;> rfl

lemma returned_foldOne (maxLineLength : Option Nat) (request : FoldRequest) :
    returned s (foldOne maxLineLength request) =
      (s.foldOne maxLineLength request).mapError BatchFault.contract := by
  unfold foldOne FoldedEditor.foldOne
  rw [returned_bind]
  show returned s (if s.live.contains request.id then _ else _) = _
  split_ifs with hlive
  · rfl
  -- the check reads the state once more, and it is the same
  rw [returned_bind]
  show returned s (demand (PartialFold.check s.editor request.range request.preview.length
    maxLineLength) >>= _) = _
  rw [returned_bind, returned_demand]
  cases PartialFold.check s.editor request.range request.preview.length maxLineLength with
  | error fault => rfl
  | ok check =>
    show returned s (if FoldStatus.ofCheck check = .ok then _ else _) =
      Except.mapError BatchFault.contract (if FoldStatus.ofCheck check = .ok then _ else _)
    split_ifs with hok
    · rw [returned_bind, returned_createFolding, hok]
      cases s.createFolding request <;> rfl
    · rfl

/-- Serving requests in place comes to what serving them comes to. -/
lemma returned_foldEach (maxLineLength : Option Nat) (requests : List FoldRequest) :
    returned s (foldEach maxLineLength requests) =
      (s.foldEach maxLineLength requests).mapError BatchFault.contract := by
  induction requests generalizing s with
  | nil => rfl
  | cons request rest ih =>
    unfold foldEach FoldedEditor.foldEach
    rw [returned_bind, returned_foldOne]
    cases s.foldOne maxLineLength request with
    | error fault => rfl
    | ok one =>
      show returned one.2 (foldEach maxLineLength rest >>= _) =
        Except.mapError BatchFault.contract ((one.2.foldEach maxLineLength rest).bind _)
      rw [returned_bind, ih]
      cases one.2.foldEach maxLineLength rest <;> rfl

/-- What is done in the end is done to the state of a success and of a failure. -/
lemma run_tryFinally (step : InPlace α) (f : FoldedEditor → FoldedEditor) :
    (tryFinally step (modify f : InPlace Unit)).run s =
      match step.run s with
      | .ok a t => .ok a (f t)
      | .error fault t => .error fault (f t) := by
  cases hstep : step.run s <;>
  · unfold EStateM.run at hstep ⊢
    simp only [tryFinally, tryFinally', Functor.map, EStateM.map, hstep]
    rfl

/-- A step that is undisturbed starts as a batch does, and ends as one does. -/
lemma returned_undisturbed (step : InPlace α) :
    returned s.process (undisturbed step) =
      (returned s.batchStart step).map fun r => (r.1, s.batchEnd r.2) := by
  -- the step starts where the requests of a batch are served
  have hrun : (undisturbed step).run s.process =
      match step.run s.batchStart with
      | .ok a t => .ok a (s.batchEnd t)
      | .error fault t => .error fault (s.batchEnd t) :=
    run_tryFinally s.batchStart step s.batchEnd
  unfold returned
  rw [hrun]
  cases step.run s.batchStart <;> rfl

variable {s} {maxLineLength : Option Nat}

/-- A batch that the settings do not allow is refused before anything is done. -/
lemma run_foldAll_of_refused {fault : UnsupportedSoftWrap}
    (hmax : s.editor.settings.maxLineLength = .error fault) (requests : List FoldRequest) :
    (foldAll requests).run s = .error (.settings fault) s := by
  simp only [foldAll, EStateM.run_bind, EStateM.run_get, hmax]
  rfl

/-- With settings that are supported a batch processes what is queued and then serves its requests
undisturbed. -/
lemma run_foldAll_of_allowed (hmax : s.editor.settings.maxLineLength = .ok maxLineLength)
    (requests : List FoldRequest) :
    (foldAll requests).run s = (undisturbed (foldEach maxLineLength requests)).run s.process := by
  simp only [foldAll, EStateM.run_bind, EStateM.run_get, hmax]
  rfl

/-- A batch comes to the same in place. -/
theorem returned_foldAll (s : FoldedEditor) (requests : List FoldRequest) :
    returned s (foldAll requests) = s.foldAll requests := by
  cases hmax : s.editor.settings.maxLineLength with
  | error fault =>
    rw [FoldedEditor.foldAll_of_refused hmax, returned, run_foldAll_of_refused hmax]
  | ok maxLineLength =>
    have hbatch : returned s (foldAll requests) =
        returned s.process (undisturbed (foldEach maxLineLength requests)) := by
      rw [returned, run_foldAll_of_allowed hmax, returned]
    rw [hbatch, returned_undisturbed, returned_foldEach]
    cases heach : s.batchStart.foldEach maxLineLength requests with
    | error fault => rw [FoldedEditor.foldAll_of_fault hmax heach]; rfl
    | ok served => rw [FoldedEditor.foldAll_of_allowed hmax heach]; rfl

end Returned

end InPlace

/-! ## The contract -/

namespace FoldedEditor

variable {s s' : FoldedEditor} {request : FoldRequest} {requests : List FoldRequest}
  {maxLineLength : Option Nat} {result : FoldResult} {S : Settings} {on : Bool}

/-- A range that can be read can be checked, and one that passes is wide enough. -/
lemma exists_check {e : Editor} (h : request.Readable e.text) (maxLineLength : Option Nat) :
    ∃ check,
      PartialFold.check e request.range request.preview.length maxLineLength = .ok check ∧
        (FoldStatus.ofCheck check = .ok →
          request.preview.length ≤ (e.text.slice request.range).visualLength) := by
  have hread : e.read request.range = .ok (e.text.slice request.range) := by
    rw [Editor.read, h.slice?]
  unfold PartialFold.check
  simp only [hread, bind, Except.bind, pure, Except.pure]
  split_ifs with hzero htab hwide
  · exact ⟨_, rfl, fun hok => absurd hok (by decide)⟩
  · exact ⟨_, rfl, fun hok => absurd hok (by decide)⟩
  · exact ⟨_, rfl, fun hok => absurd hok (by decide)⟩
  · cases maxLineLength with
    | none => exact ⟨_, rfl, fun _ => Nat.not_lt.1 hwide⟩
    | some max =>
      dsimp only
      split_ifs
      · exact ⟨_, rfl, fun _ => Nat.not_lt.1 hwide⟩
      · exact ⟨_, rfl, fun hok => absurd hok (by decide)⟩

/-- With soft tabs off, a request is served: what passes the check can be folded. -/
lemma exists_foldOne (hsoft : s.editor.settings.atomicSoftTabs = false)
    (h : request.Readable s.editor.text) (maxLineLength : Option Nat) :
    ∃ result s', s.foldOne maxLineLength request = .ok (result, s') := by
  unfold FoldedEditor.foldOne
  split_ifs with hlive
  · exact ⟨_, _, rfl⟩
  obtain ⟨check, hcheck, hwidth⟩ := exists_check h maxLineLength
  simp only [hcheck, bind, Except.bind]
  split_ifs with hok
  · obtain ⟨info, s', hcreate⟩ := exists_createFolding hsoft h (hwidth hok)
    rw [hcreate]
    exact ⟨_, _, rfl⟩
  · exact ⟨_, _, rfl⟩

lemma Configured.foldOne (h : s.Configured S on)
    (hone : s.foldOne maxLineLength request = .ok (result, s')) : s'.Configured S on := by
  rcases foldOne_ok hone with ⟨-, rfl⟩ | ⟨-, -, -, info, hcreate⟩
  · exact h
  · exact h.createFolding hcreate

/-- Serving a request changes neither the text nor the settings, so all requests are served. -/
lemma exists_foldEach (hsoft : s.editor.settings.atomicSoftTabs = false)
    (h : ∀ q ∈ requests, q.Readable s.editor.text) (maxLineLength : Option Nat) :
    ∃ results s', s.foldEach maxLineLength requests = .ok (results, s') := by
  induction requests generalizing s with
  | nil => exact ⟨[], s, rfl⟩
  | cons q rest ih =>
    obtain ⟨result, t, hone⟩ := exists_foldOne hsoft (h q (List.mem_cons_self ..)) maxLineLength
    have htext : t.editor.text = s.editor.text :=
      (foldOne_leavesHost hone (Nat.zero_le _)).1.text
    have hconfigured : t.Configured s.editor.settings s.highlighter.enabled :=
      Configured.foldOne ⟨rfl, rfl⟩ hone
    obtain ⟨results, s', heach⟩ := ih (by rw [hconfigured.1, hsoft])
      (fun p hp => htext ▸ h p (List.mem_cons_of_mem _ hp))
    refine ⟨result :: results, s', ?_⟩
    unfold FoldedEditor.foldEach
    simp only [hone, heach, bind, Except.bind, pure, Except.pure]

/-- A batch is served, if the settings allow folding. -/
lemma exists_foldAll (h : ∀ q ∈ requests, q.Readable s.editor.text)
    (hmax : s.editor.settings.maxLineLength = .ok maxLineLength) :
    ∃ results s', s.foldAll requests = .ok (results, s') := by
  have htext : s.batchStart.editor.text = s.editor.text := (s.process_leavesHost 0).text
  obtain ⟨results, t, heach⟩ := exists_foldEach (s := s.batchStart) rfl
    (fun q hq => htext ▸ h q hq) maxLineLength
  exact ⟨results, s.batchEnd t, foldAll_of_allowed hmax heach⟩

/-! ## Every state -/

/-- The states of an editor with foldings. The foldings are made and taken down by the operations
on them, and in between the editor may become any other. -/
inductive Handled : FoldedEditor → Prop where
  | start (e : Editor) : Handled { editor := e }
  | host {s : FoldedEditor} (e : Editor) : Handled s → Handled { s with editor := e }
  | manage {s s' : FoldedEditor} : Handled s → s.Managed s' → Handled s'

/-- Highlighting is suspended by nothing but a batch, and no longer than it takes. -/
lemma Handled.enabled (h : s.Handled) : s.highlighter.enabled = true := by
  induction h with
  | start => rfl
  | host e _ ih => exact ih
  | @manage s s' _ hm ih =>
    have hconfigured : s.Configured s.editor.settings true := ⟨rfl, ih⟩
    cases hm with
    | process => exact hconfigured.process.2
    | destroyFolding id => exact (hconfigured.destroyFolding id).2
    | unfoldAll => exact hconfigured.unfoldAll.2
    | foldAll requests =>
      unfold afterBatch
      split
      · rename_i hbatch
        exact (hconfigured.foldAll hbatch).2
      · exact ih

/-- Whatever is queued, live or folded by the host, a batch of ranges that can be read breaks no
contract. It is refused by the settings alone, and then nothing has been touched; or it is served,
and then soft tabs are as before and highlighting is on. -/
theorem Handled.foldAll_keeps_contract (hs : s.Handled) (requests : List FoldRequest)
    (hranges : ∀ q ∈ requests, q.Readable s.editor.text) :
    (∃ fault, s.editor.settings.maxLineLength = .error fault ∧
        s.foldAll requests = .error (.settings fault) ∧
        (InPlace.foldAll requests).run s = .error (.settings fault) s ∧
        s.highlighter.enabled = true) ∨
      ∃ maxLineLength results s', s.editor.settings.maxLineLength = .ok maxLineLength ∧
        s.foldAll requests = .ok (results, s') ∧
        (InPlace.foldAll requests).run s = .ok results s' ∧
        s'.editor.settings.atomicSoftTabs = s.editor.settings.atomicSoftTabs ∧
        s'.highlighter.enabled = true := by
  have hconfigured : s.Configured s.editor.settings true := ⟨rfl, hs.enabled⟩
  cases hmax : s.editor.settings.maxLineLength with
  | error fault =>
    left
    exact ⟨fault, rfl, foldAll_of_refused hmax requests,
      InPlace.run_foldAll_of_refused hmax requests, hs.enabled⟩
  | ok maxLineLength =>
    right
    obtain ⟨results, s', hbatch⟩ := exists_foldAll hranges hmax
    have hreturned := (InPlace.returned_foldAll s requests).trans hbatch
    have hafter := hconfigured.foldAll hbatch
    exact ⟨maxLineLength, results, s', rfl, hbatch, InPlace.run_of_returned s hreturned,
      by rw [hafter.1], hafter.2⟩

/-- The text under a folding has been changed, which is still queued, when a batch comes with a
number twice, a range that runs past the end of the text across another one, and a preview that is
too wide. After soft wrap at the window edge is turned on, the same batch is refused. -/
theorem Handled.foldAll_keeps_contract_queued :
    let start : FoldedEditor := { editor := { text := "xab\ncdy\nefgh".toList } }
    let hosted := start.host (EditorCall.fold ⟨⟨2, 3⟩, ⟨2, 4⟩⟩).run
    let folded := hosted.afterBatch
      [⟨1, ⟨⟨0, 1⟩, ⟨1, 2⟩⟩, ['p', 'q']⟩, ⟨2, ⟨⟨2, 1⟩, ⟨2, 3⟩⟩, ['r', 's']⟩]
    let s := folded.host (EditorCall.insert ⟨1, 1⟩ ['z']).run
    let wrapped := s.host fun e => { e with settings := { e.settings with softWrap := true } }
    let requests : List FoldRequest :=
      [⟨1, ⟨⟨0, 1⟩, ⟨1, 2⟩⟩, ['p', 'q']⟩, ⟨1, ⟨⟨0, 0⟩, ⟨0, 1⟩⟩, ['x']⟩,
        ⟨3, ⟨⟨0, 2⟩, ⟨9, 9⟩⟩, ['r']⟩, ⟨4, ⟨⟨2, 0⟩, ⟨2, 1⟩⟩, ['w', 'i', 'd', 'e']⟩]
    s.Handled ∧ (∀ q ∈ requests, q.Readable s.editor.text) ∧ s.live.keys = [1, 2] ∧
      s.editor.hasPending = true ∧
      (∃ results s', s.foldAll requests = .ok (results, s') ∧
        (InPlace.foldAll requests).run s = .ok results s' ∧
        results.map (·.status) = [.ok, .error, .ok, .error] ∧
        s'.editor.settings.atomicSoftTabs = s.editor.settings.atomicSoftTabs ∧
        s'.highlighter.enabled = true) ∧
      (InPlace.foldAll requests).run wrapped =
        .error (.settings .unsupportedSoftWrap) wrapped := by
  intro start hosted folded s wrapped requests
  have hs : s.Handled := .host _ (.manage (.host _ (.start _)) (.foldAll _))
  have hranges : ∀ q ∈ requests, q.Readable s.editor.text := by
    unfold FoldRequest.Readable
    decide +kernel
  have hstatuses : (s.foldAll requests).toOption.map (·.1.map (·.status)) =
      some [.ok, .error, .ok, .error] := by decide +kernel
  have hrefusing : wrapped.editor.settings.maxLineLength = .error .unsupportedSoftWrap := by
    decide +kernel
  refine ⟨hs, hranges, by decide +kernel, by decide +kernel, ?_, ?_⟩
  · rcases hs.foldAll_keeps_contract requests hranges with
      ⟨fault, -, hrefused, -⟩ | ⟨-, results, s', -, hbatch, hrun, hsoft, hon⟩
    · rw [hrefused] at hstatuses
      exact absurd hstatuses (by simp [Except.toOption])
    · rw [hbatch] at hstatuses
      exact ⟨results, s', hbatch, hrun, Option.some.inj hstatuses, hsoft, hon⟩
  · rcases (Handled.host wrapped.editor hs).foldAll_keeps_contract requests hranges with
      ⟨fault, -, -, hrun, -⟩ | ⟨_, _, _, hmax, -⟩
    · exact hrun
    · exact absurd (hrefusing.symm.trans hmax) (by simp)

end FoldedEditor

end TemplateFolding
