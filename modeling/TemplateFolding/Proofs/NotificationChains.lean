import TemplateFolding.Proofs.EditorRuns

/-!
# Notifications form chains

A listener drains the queues whenever it likes, and what it has been told so far, followed by what
is still queued, is the whole story of a marker: the first notification starts at the extent that
the marker was created with, each later one starts where the one before has led, and the last one
leads to the present extent. Only the last can say that the marker is no longer valid. The moves of
the cursor form a chain of the same kind.

What a call does is said once, by `Effect`. Both kinds of chains follow from it.
-/

namespace TemplateFolding

/-! ## Chains -/

/-- Steps that lead from `a` to `b`, each of them from where the one before has led. -/
def Leads {α β : Type} (source target : α → β) : β → List α → β → Prop
  | a, [], b => a = b
  | a, x :: xs, b => source x = a ∧ Leads source target (target x) xs b

/-- A chain goes on with an item that starts where the chain ends. -/
lemma Leads.concat {α β : Type} {source target : α → β} {a b : β} {xs : List α} {x : α}
    (h : Leads source target a xs b) (hx : source x = b) :
    Leads source target a (xs ++ [x]) (target x) := by
  induction xs generalizing a with
  | nil => exact ⟨hx.trans h.symm, rfl⟩
  | cons y ys ih => exact ⟨h.1, ih h.2⟩

/-- Notifications that lead from the extent `created` to the extent `last`. All but the last say
that the marker is valid, and `valid` is whether the last one does too. -/
structure MarkerChange.Tells (created : Range) (notes : List MarkerChange) (last : Range)
    (valid : Bool) : Prop where
  leads : Leads MarkerChange.old MarkerChange.new created notes last
  early : ∀ c ∈ notes.dropLast, c.valid = true
  agrees : (∃ c ∈ notes, c.valid = false) ↔ valid = false

namespace MarkerChange

variable {created last : Range} {notes queue : List MarkerChange} {c : MarkerChange}

lemma tells_nil (created : Range) : Tells created [] created true :=
  ⟨rfl, by simp, by simp⟩

/-- One more notification, as long as the marker has been valid. -/
lemma Tells.concat (h : Tells created notes last true) (hc : c.old = last) :
    Tells created (notes ++ [c]) c.new c.valid := by
  have hvalid : ∀ d ∈ notes, d.valid = true := by
    intro d hd
    by_contra hno
    exact absurd (h.agrees.1 ⟨d, hd, by simpa using hno⟩) (by simp)
  refine ⟨h.leads.concat hc, ?_, ?_⟩
  · rw [List.dropLast_concat]
    exact hvalid
  · constructor
    · rintro ⟨d, hd, hinvalid⟩
      rcases List.mem_append.1 hd with hd | hd
      · rw [hvalid d hd] at hinvalid
        exact absurd hinvalid (by simp)
      · rw [← List.mem_singleton.1 hd]
        exact hinvalid
    · exact fun hinvalid => ⟨c, by simp, hinvalid⟩

/-- What a queue with one notification of each marker at most holds for one marker. -/
lemma filter_marker (h : queue.Pairwise fun c d => c.marker ≠ d.marker) (k : MarkerId) :
    queue.filter (·.marker == k) = (of? k queue).toList := by
  induction queue with
  | nil => rfl
  | cons c queue ih =>
    obtain ⟨hc, hqueue⟩ := List.pairwise_cons.1 h
    rw [of?_cons]
    by_cases hk : c.marker = k
    · have hnone : of? k queue = none :=
        of?_eq_none fun d hd hdk => hc d hd (hk.trans hdk.symm)
      rw [List.filter_cons_of_pos (by simpa using hk), ih hqueue, hnone, if_pos hk]
      rfl
    · rw [List.filter_cons_of_neg (by simpa using hk), ih hqueue, if_neg hk]

end MarkerChange

/-! ## What a call can do -/

namespace Editor

open MarkerChange

variable {e e' : Editor} {k : MarkerId} {created : Range} {past : List MarkerChange}

/-- What a call other than draining can do: it makes a change that is tracked, which keeps every
marker and leaves invalid ones alone, or it moves nothing and keeps every marker but those that it
destroys. -/
inductive Effect (e : Editor) (destroyed : MarkerId → Prop) : Editor → Prop where
  | tracked (change : Editor → Editor) :
      (change e).markerChanges = e.markerChanges → (change e).cursorMoves = e.cursorMoves →
      (∀ k m, e.markers.get? k = some m →
        ∃ m', (change e).markers.get? k = some m' ∧ (m.valid = false → m' = m)) →
      Effect e destroyed (track change e)
  | still {e' : Editor} :
      e'.text = e.text → e'.folds = e.folds → e'.cursor = e.cursor →
      e'.cursorMoves = e.cursorMoves →
      (∀ k m, ¬destroyed k → e.markers.get? k = some m →
        e'.markers.get? k = some m ∧ e'.pending? k = e.pending? k) →
      Effect e destroyed e'

lemma Effect.refl (e : Editor) (destroyed : MarkerId → Prop) : e.Effect destroyed e :=
  .still rfl rfl rfl rfl fun _ _ _ hm => ⟨hm, rfl⟩

/-- A tracked change that does not touch the markers. -/
lemma Effect.of_markers {destroyed : MarkerId → Prop} (change : Editor → Editor)
    (hqueue : (change e).markerChanges = e.markerChanges)
    (hmoves : (change e).cursorMoves = e.cursorMoves) (hmarkers : (change e).markers = e.markers) :
    e.Effect destroyed (track change e) := by
  refine .tracked change hqueue hmoves ?_
  intro k m hm
  exact ⟨m, by rw [hmarkers, hm], fun _ => rfl⟩

/-- Replacing text is a tracked change, and destroys no marker. -/
lemma effect_replace (e : Editor) (destroyed : MarkerId → Prop) (r : Range) (inserted : Text) :
    e.Effect destroyed (e.replace r inserted).2 := by
  rw [replace_eq]
  refine .tracked (·.splice (e.editOf r inserted) inserted) rfl rfl ?_
  intro k m hm
  refine ⟨m.afterEdit (e.editOf r inserted), ?_, ?_⟩
  · rw [splice, Table.get?_map, hm]
    rfl
  · intro hv
    rw [Marker.afterEdit, if_neg (by simp [hv])]

/-- Destroying a marker moves nothing and keeps the others. -/
lemma effect_destroyMarker (e : Editor) (id : MarkerId) :
    e.Effect (fun k => k = id) (e.destroyMarker id) := by
  refine .still rfl rfl rfl rfl ?_
  intro k m hk hm
  refine ⟨(Table.get?_erase_of_ne _ hk).trans hm, ?_⟩
  -- the filter passes over the notification of another marker
  simp only [pending?, destroyMarker, of?, List.find?_filter]
  congr 1
  funext c
  by_cases hc : c.marker = k
  · simp [hc, hk]
  · simp [hc]

/-- Every call other than draining has such an effect. -/
theorem effect_run (h : e.Kept) {call : EditorCall} (hchanges : call ≠ .drainMarkerChanges)
    (hmoves : call ≠ .drainCursorMoves) :
    e.Effect (fun k => call = .destroyMarker k) (call.run e) := by
  cases call with
  | insert p text => exact effect_replace e _ ⟨p, p⟩ text
  | replace r text => exact effect_replace e _ r text
  | setCursor p => exact .of_markers (fun d => { d with cursor := d.text.clip p }) rfl rfl rfl
  | fold r =>
    -- the number is taken before the change that is tracked, which is no matter to what it moves
    exact .of_markers (fun d => { d with
      nextId := e.nextId + 1
      folds := d.folds.insert e.nextId (e.clipRange r) }) rfl rfl rfl
  | destroyFold id =>
    show e.Effect _ (e.destroyFold id)
    rw [destroyFold]
    split
    · exact .of_markers (fun d => { d with folds := d.folds.erase id }) rfl rfl rfl
    · exact .refl e _
  | unfoldRow row =>
    exact .of_markers
      (fun d => { d with folds := d.folds.filter fun _ fold => !touchesRow row fold })
      rfl rfl rfl
  | createMarker r =>
    refine .still rfl rfl rfl rfl ?_
    intro k m _ hm
    have hne : k ≠ e.nextId := Nat.ne_of_lt (h.markers k m hm)
    exact ⟨(Table.get?_insert_of_ne _ _ hne).trans hm, rfl⟩
  | destroyMarker id =>
    have hsame : (fun k => EditorCall.destroyMarker id = .destroyMarker k) = fun k => k = id := by
      funext k
      rw [EditorCall.destroyMarker.injEq]
      exact propext eq_comm
    rw [hsame]
    exact e.effect_destroyMarker id
  | decorate marker overlay => exact .still rfl rfl rfl rfl fun _ _ _ hm => ⟨hm, rfl⟩
  | setStyle id style => exact .still rfl rfl rfl rfl fun _ _ _ hm => ⟨hm, rfl⟩
  | destroyDecoration id => exact .still rfl rfl rfl rfl fun _ _ _ hm => ⟨hm, rfl⟩
  | configure settings => exact .still rfl rfl rfl rfl fun _ _ _ hm => ⟨hm, rfl⟩
  | drainMarkerChanges => exact absurd rfl hchanges
  | drainCursorMoves => exact absurd rfl hmoves

/-! ## The story of a marker -/

/-- What has been drained of a marker tells its story up to what is queued. Once it has told that
the marker is not valid any more, nothing is queued. -/
def Told (e : Editor) (k : MarkerId) (created : Range) (past : List MarkerChange) : Prop :=
  ∃ m known, e.markers.get? k = some m ∧
    (Tells created past known true ∧ e.Accounts k m known ∨
      Tells created past known false ∧ m.valid = false ∧ e.pending? k = none)

/-- An invalid marker with nothing queued stays silent. -/
lemma pending?_track_of_invalid {change : Editor → Editor} {m : Marker}
    (hqueue : (change e).markerChanges = e.markerChanges) (hm : e.markers.get? k = some m)
    (hv : m.valid = false) : (track change e).pending? k = e.pending? k := by
  rw [pending?_track hqueue hm, if_neg (by simp [hv])]

/-- The story of a marker goes on through every effect that does not destroy it. -/
lemma Told.effect {destroyed : MarkerId → Prop} (h : e.Told k created past)
    (he : e.Effect destroyed e') (hk : ¬destroyed k) : e'.Told k created past := by
  obtain ⟨m, known, hm, hstory⟩ := h
  cases he with
  | tracked change hqueue _ hmarkers =>
    obtain ⟨m', hm', hsame⟩ := hmarkers k m hm
    refine ⟨m', known, hm', ?_⟩
    rcases hstory with ⟨htells, haccounts⟩ | ⟨htells, hv, hnone⟩
    · exact Or.inl ⟨htells, haccounts.track hqueue hm hm' hsame⟩
    · right
      rw [hsame hv, pending?_track_of_invalid hqueue hm hv]
      exact ⟨htells, hv, hnone⟩
  | still htext hfolds _ _ hmarkers =>
    obtain ⟨hm', hpending⟩ := hmarkers k m hk hm
    refine ⟨m, known, hm', ?_⟩
    rcases hstory with ⟨htells, haccounts⟩ | ⟨htells, hv, hnone⟩
    · exact Or.inl ⟨htells, haccounts.congr hpending htext hfolds⟩
    · exact Or.inr ⟨htells, hv, hpending.trans hnone⟩

/-- What is queued completes the story. -/
lemma Told.complete (h : e.Told k created past) :
    ∃ m last, e.markers.get? k = some m ∧
      Tells created (past ++ (e.pending? k).toList) last m.valid ∧
      (m.valid = true → last = e.screenRange m.range) := by
  obtain ⟨m, known, hm, ⟨htells, haccounts⟩ | ⟨htells, hv, hnone⟩⟩ := h
  · rw [Accounts] at haccounts
    cases hp : e.pending? k with
    | none =>
      rw [hp] at haccounts
      obtain ⟨hv, hscreen⟩ := haccounts
      refine ⟨m, known, hm, ?_, fun _ => hscreen.symm⟩
      rw [Option.toList_none, List.append_nil, hv]
      exact htells
    | some c =>
      rw [hp] at haccounts
      obtain ⟨hold, hvalid, -, hnew⟩ := haccounts
      refine ⟨m, c.new, hm, ?_, hnew⟩
      rw [← hvalid]
      exact htells.concat hold
  · refine ⟨m, known, hm, ?_, ?_⟩
    · rw [hnone, Option.toList_none, List.append_nil, hv]
      exact htells
    · rw [hv]
      exact fun hno => absurd hno (by simp)

/-- Draining moves what is queued into the past. -/
lemma Told.drain (h : e.Told k created past) :
    e.drainMarkerChanges.2.Told k created (past ++ (e.pending? k).toList) := by
  obtain ⟨m, last, hm, htells, hscreen⟩ := h.complete
  refine ⟨m, last, hm, ?_⟩
  cases hv : m.valid with
  | true =>
    rw [hv] at htells
    exact Or.inl ⟨htells, hv, (hscreen hv).symm⟩
  | false =>
    rw [hv] at htells
    exact Or.inr ⟨htells, rfl, rfl⟩

/-! ## What has been drained -/

/-- The notifications that a call takes out of the queue, as a list for each time it is drained. -/
def changesTaken (e : Editor) : EditorCall → List (List MarkerChange)
  | .drainMarkerChanges => [e.drainMarkerChanges.1]
  | _ => []

/-- The moves of the cursor that a call takes out of the queue. -/
def movesTaken (e : Editor) : EditorCall → List (List CursorMove)
  | .drainCursorMoves => [e.drainCursorMoves.1]
  | _ => []

/-- What calls made one after the other take out of a queue. -/
def takenBy {α : Type} (taken : Editor → EditorCall → List α) (e : Editor) :
    List EditorCall → List α
  | [] => []
  | call :: calls => taken e call ++ takenBy taken (call.run e) calls

/-- The notifications of a marker in the order of their delivery: those that have been drained, then
the one that is queued. -/
def notesOf (e : Editor) (calls : List EditorCall) (k : MarkerId) : List MarkerChange :=
  ((takenBy changesTaken e calls).flatten ++ (e.runAll calls).markerChanges).filter (·.marker == k)

/-- The moves of the cursor in the order of their delivery. -/
def movesOf (e : Editor) (calls : List EditorCall) : List CursorMove :=
  (takenBy movesTaken e calls).flatten ++ (e.runAll calls).cursorMoves

variable {call : EditorCall} {calls later : List EditorCall}

lemma changesTaken_of_ne (h : call ≠ .drainMarkerChanges) : e.changesTaken call = [] := by
  cases call with
  | drainMarkerChanges => exact absurd rfl h
  | _ => rfl

lemma movesTaken_of_ne (h : call ≠ .drainCursorMoves) : e.movesTaken call = [] := by
  cases call with
  | drainCursorMoves => exact absurd rfl h
  | _ => rfl

/-- What a run of calls takes out is what its first part takes, and then what the rest takes. -/
lemma takenBy_append {α : Type} (taken : Editor → EditorCall → List α) :
    takenBy taken e (calls ++ later) =
      takenBy taken e calls ++ takenBy taken (e.runAll calls) later := by
  induction calls generalizing e with
  | nil => rfl
  | cons call calls ih =>
    rw [List.cons_append, takenBy, takenBy, ih, List.append_assoc]
    rfl

/-- Each time the queue is drained there is one notification of a marker at most, and every marker
that is named has been created by then. -/
lemma Kept.changesTaken (h : e.Kept) {batch : List MarkerChange}
    (hbatch : batch ∈ takenBy Editor.changesTaken e calls) :
    (batch.Pairwise fun c d => c.marker ≠ d.marker) ∧
      ∀ c ∈ batch, c.marker < (e.runAll calls).nextId := by
  induction calls generalizing e with
  | nil => exact absurd hbatch List.not_mem_nil
  | cons call calls ih =>
    rcases List.mem_append.1 hbatch with hnow | hlater
    · by_cases hdrain : call = .drainMarkerChanges
      · subst hdrain
        rw [List.mem_singleton.1 hnow]
        refine ⟨h.distinct, fun c hc => ?_⟩
        exact Nat.lt_of_lt_of_le (h.pending c hc) (e.nextId_le_runAll _)
      · rw [changesTaken_of_ne hdrain] at hnow
        exact absurd hnow List.not_mem_nil
    · exact ih (h.run call) hlater

/-! ## Runs -/

/-- The story of a marker goes on through every call that does not destroy it, with what the call
takes out of the queue told before what is still in it. -/
lemma Told.run (h : e.Told k created past) (hkept : e.Kept) (hkeep : call ≠ .destroyMarker k) :
    (call.run e).Told k created
      (past ++ (e.changesTaken call).flatten.filter (·.marker == k)) := by
  by_cases hchanges : call = .drainMarkerChanges
  · subst hchanges
    show e.drainMarkerChanges.2.Told k created
      (past ++ [e.markerChanges].flatten.filter (·.marker == k))
    rw [List.flatten_singleton, filter_marker hkept.distinct k]
    exact h.drain
  rw [changesTaken_of_ne hchanges, List.flatten_nil, List.filter_nil, List.append_nil]
  by_cases hmoves : call = .drainCursorMoves
  · -- the other queue is no part of the story
    subst hmoves
    exact h
  · exact h.effect (effect_run hkept hchanges hmoves) hkeep

/-- A run of calls carries the story of a marker on. -/
lemma Told.runAll (h : e.Told k created past) (hkept : e.Kept)
    (hkeep : EditorCall.destroyMarker k ∉ calls) :
    (e.runAll calls).Told k created
      (past ++ (takenBy Editor.changesTaken e calls).flatten.filter (·.marker == k)) := by
  -- what each call takes is added to the past that the rest of the run starts with
  induction calls generalizing e past with
  | nil =>
    rw [takenBy, List.flatten_nil, List.filter_nil, List.append_nil]
    exact h
  | cons call calls ih =>
    rw [takenBy, List.flatten_append, List.filter_append, ← List.append_assoc]
    refine ih (h.run hkept ?_) (hkept.run call) ?_
    · exact fun heq => hkeep (heq ▸ List.mem_cons_self ..)
    · exact fun hmem => hkeep (List.mem_cons_of_mem _ hmem)

/-- Nothing has been said of a marker that is just being created. -/
lemma Kept.told_createMarker (h : e.Kept) (r : Range) :
    (e.createMarker r).2.Told e.nextId (e.screenRange (e.clipRange r)) [] := by
  refine ⟨⟨e.clipRange r, true⟩, _, Table.get?_insert_self .., Or.inl ⟨tells_nil _, ?_⟩⟩
  have hnone : (e.createMarker r).2.pending? e.nextId = none :=
    of?_eq_none fun c hc heq => absurd heq (Nat.ne_of_lt (h.pending c hc))
  rw [Accounts, hnone]
  exact ⟨rfl, rfl⟩

/-- No notification names a marker before it is created. -/
lemma Kept.filter_takenBy (h : e.Kept) (hk : (e.runAll calls).nextId ≤ k) :
    (takenBy Editor.changesTaken e calls).flatten.filter (·.marker == k) = [] := by
  rw [List.filter_eq_nil_iff]
  intro c hc heq
  obtain ⟨batch, hbatch, hc⟩ := List.mem_flatten.1 hc
  have hlt := (h.changesTaken hbatch).2 c hc
  exact absurd (beq_iff_eq.1 heq) (Nat.ne_of_lt (Nat.lt_of_lt_of_le hlt hk))

/-- The story of a marker from its creation on. -/
lemma Kept.told_runAll (h : e.Kept) (before : List EditorCall) (r : Range) (after : List EditorCall)
    (hk : k = (e.runAll before).nextId) (hkeep : EditorCall.destroyMarker k ∉ after) :
    ∃ m last, (e.runAll (before ++ .createMarker r :: after)).markers.get? k = some m ∧
      Tells ((e.runAll before).screenRange ((e.runAll before).clipRange r))
        (e.notesOf (before ++ .createMarker r :: after) k) last m.valid ∧
      (m.valid = true →
        last = (e.runAll (before ++ .createMarker r :: after)).screenRange m.range) := by
  have hbefore := h.runAll before
  have hall := h.runAll (before ++ .createMarker r :: after)
  have htold : (e.runAll (before ++ .createMarker r :: after)).Told k
      ((e.runAll before).screenRange ((e.runAll before).clipRange r))
      ((takenBy Editor.changesTaken ((e.runAll before).createMarker r).2 after).flatten.filter
        (·.marker == k)) := by
    rw [Editor.runAll, List.foldl_append]
    subst hk
    exact (hbefore.told_createMarker r).runAll (hbefore.run (.createMarker r)) hkeep
  have hnotes : e.notesOf (before ++ .createMarker r :: after) k =
      (takenBy Editor.changesTaken ((e.runAll before).createMarker r).2 after).flatten.filter
        (·.marker == k) ++
      ((e.runAll (before ++ .createMarker r :: after)).pending? k).toList := by
    rw [notesOf, List.filter_append, filter_marker hall.distinct k, takenBy_append,
      List.flatten_append, List.filter_append, h.filter_takenBy (Nat.le_of_eq hk.symm),
      List.nil_append]
    rfl
  rw [hnotes]
  exact htold.complete

end Editor

/-! ## The moves of the cursor -/

namespace CursorMove

/-- Where the cursor was, in the buffer and on the screen. -/
def source (m : CursorMove) : Point × Point := (m.old, m.oldScreen)

/-- Where the cursor is, in the buffer and on the screen. -/
def target (m : CursorMove) : Point × Point := (m.new, m.newScreen)

end CursorMove

namespace Editor

open CursorMove MarkerChange

variable {e e' : Editor} {start : Point × Point} {past : List CursorMove}

/-- Where the cursor is, in the buffer and on the screen. -/
def cursorSpot (e : Editor) : Point × Point := (e.cursor, e.screenPoint e.cursor)

/-- A tracked change carries the chain of cursor moves on to where the cursor is now. -/
lemma cursorSpot_track {change : Editor → Editor} (hmoves : (change e).cursorMoves = e.cursorMoves)
    (h : Leads source target start (past ++ e.cursorMoves) e.cursorSpot) :
    Leads source target start (past ++ (track change e).cursorMoves)
      (track change e).cursorSpot := by
  show Leads source target start
    (past ++ ((change e).cursorMoves ++ (cursorMoveSince e (change e)).toList))
    (change e).cursorSpot
  rw [hmoves, cursorMoveSince]
  split_ifs with hsame
  · -- it is where it was, in the buffer and on the screen
    have hspot : (change e).cursorSpot = e.cursorSpot := Prod.ext hsame.1 hsame.2
    rw [Option.toList_none, List.append_nil, hspot]
    exact h
  · rw [Option.toList_some, ← List.append_assoc]
    exact h.concat rfl

/-- Every effect carries the chain of cursor moves on. -/
lemma cursorSpot_effect {destroyed : MarkerId → Prop} (he : e.Effect destroyed e')
    (h : Leads source target start (past ++ e.cursorMoves) e.cursorSpot) :
    Leads source target start (past ++ e'.cursorMoves) e'.cursorSpot := by
  cases he with
  | tracked change _ hmoves _ => exact cursorSpot_track hmoves h
  | still htext hfolds hcursor hmoves _ =>
    have hspot : e'.cursorSpot = e.cursorSpot := by
      rw [cursorSpot, cursorSpot, hcursor, screenPoint, screenPoint, htext, hfolds]
    rw [hmoves, hspot]
    exact h

/-- Every call carries the chain of cursor moves on, with the moves that it takes out of the queue.
-/
lemma cursorSpot_run (hkept : e.Kept) (call : EditorCall)
    (h : Leads source target start (past ++ e.cursorMoves) e.cursorSpot) :
    Leads source target start (past ++ (e.movesTaken call).flatten ++ (call.run e).cursorMoves)
      (call.run e).cursorSpot := by
  by_cases hmoves : call = .drainCursorMoves
  · subst hmoves
    show Leads source target start (past ++ [e.cursorMoves].flatten ++ []) e.cursorSpot
    rw [List.flatten_singleton, List.append_nil]
    exact h
  rw [movesTaken_of_ne hmoves, List.flatten_nil, List.append_nil]
  by_cases hchanges : call = .drainMarkerChanges
  · subst hchanges
    exact h
  · exact cursorSpot_effect (effect_run hkept hchanges hmoves) h

/-- A run of calls carries the chain of moves on. -/
lemma cursorSpot_runAll (hkept : e.Kept) (calls : List EditorCall)
    (h : Leads source target start (past ++ e.cursorMoves) e.cursorSpot) :
    Leads source target start (past ++ e.movesOf calls) (e.runAll calls).cursorSpot := by
  induction calls generalizing e past with
  | nil => exact h
  | cons call calls ih =>
    have hrest := ih (hkept.run call) (cursorSpot_run hkept call h)
    rw [movesOf, takenBy, List.flatten_append, List.append_assoc, ← List.append_assoc past]
    exact hrest

/-- Notifications are neither lost nor said twice, whenever the queues are drained. What has been
said of a marker that is not destroyed leads from the extent that it was created with to the present
one, one notification from where the one before has led, and if it has become invalid the last one
and no other says so. No drained list names a marker twice, and neither does the queue. The moves of
the cursor lead from where it was first to where it is now. -/
theorem runAll_notifications (text : Text) (settings : Settings) (calls : List EditorCall) :
    (∀ before r after k, calls = before ++ .createMarker r :: after →
      k = ((runAll { text, settings } before).createMarker r).1 →
      EditorCall.destroyMarker k ∉ after →
      ∃ m last, (runAll { text, settings } calls).markers.get? k = some m ∧
        Tells ((runAll { text, settings } before).screenRange
            ((runAll { text, settings } before).clipRange r))
          (notesOf { text, settings } calls k) last m.valid ∧
        (m.valid = true → last = (runAll { text, settings } calls).screenRange m.range)) ∧
    (∀ batch ∈ takenBy changesTaken { text, settings } calls ++
        [(runAll { text, settings } calls).markerChanges],
      batch.Pairwise fun c d => c.marker ≠ d.marker) ∧
    Leads source target (cursorSpot { text, settings }) (movesOf { text, settings } calls)
      (runAll { text, settings } calls).cursorSpot := by
  have hkept := kept_new text settings
  refine ⟨?_, ?_, ?_⟩
  · intro before r after k hcalls hk hkeep
    subst hcalls
    exact hkept.told_runAll before r after hk hkeep
  · intro batch hbatch
    rcases List.mem_append.1 hbatch with htaken | hqueued
    · exact (hkept.changesTaken htaken).1
    · rw [List.mem_singleton.1 hqueued]
      exact (hkept.runAll calls).distinct
  · have hstart : Leads source target (cursorSpot { text, settings })
        ([] ++ (Editor.cursorMoves { text, settings })) (cursorSpot { text, settings }) := rfl
    exact cursorSpot_runAll hkept calls hstart

/-- A marker that a fold moves and that an edit then invalidates, with the first notification
drained and the second still queued. -/
theorem runAll_notifications_invalidated :
    let before : List EditorCall := [.setCursor ⟨0, 2⟩]
    let after : List EditorCall :=
      [.fold ⟨⟨0, 0⟩, ⟨0, 2⟩⟩, .drainMarkerChanges, .insert ⟨0, 4⟩ ['x']]
    let e : Editor := { text := ['a', 'b', 'c', 'd', 'e', 'f'] }
    let calls := before ++ .createMarker ⟨⟨0, 3⟩, ⟨0, 5⟩⟩ :: after
    EditorCall.destroyMarker 1 ∉ after ∧
      (e.notesOf calls 1).map (·.valid) = [true, false] ∧
      ∃ m last, (e.runAll calls).markers.get? 1 = some m ∧
        Tells ((e.runAll before).screenRange ((e.runAll before).clipRange ⟨⟨0, 3⟩, ⟨0, 5⟩⟩))
          (e.notesOf calls 1) last m.valid ∧
        (m.valid = true → last = (e.runAll calls).screenRange m.range) := by
  intro before after e calls
  have hkeep : EditorCall.destroyMarker 1 ∉ after := by simp [after]
  exact ⟨hkeep, by decide,
    (runAll_notifications e.text e.settings calls).1 before _ after 1 rfl rfl hkeep⟩

end Editor

end TemplateFolding
