import TemplateFolding.Proofs.UndrawnStates
import TemplateFolding.Proofs.WhatYouSee

/-!
# Folding leaves no history

When all foldings are taken down, the editor is the one that was handed over, with its queues empty
and some numbers used up. Nothing but these numbers tells what has been folded before, and as
numbers do not matter, folding again has the same result as folding for the first time.

Decorations go with their markers. A decoration that hangs on a number of the future is lost when
that number becomes the marker of a folding and the folding is taken down, and until then it is
drawn with the folding. All else is undone whatever the decorations hang on, as they have no say in
what is folded.
-/

namespace TemplateFolding

open Text

/-! ## Numbers of the future -/

/-- Decorations that hang on numbers of the future do not show. -/
lemma Editor.overlays_of_handedOut {E : Editor} (hk : E.Kept) {decorations : Table Decoration}
    (hincluded : E.decorations.Includes decorations)
    (hstill : ∀ d x, E.decorations.get? d = some x → x.marker < E.nextId →
      decorations.get? d = some x) :
    ({ E with decorations } : Editor).overlays = E.overlays := by
  have hsame : decorations.filter (fun _ x => decide (x.marker < E.nextId)) =
      E.decorations.filter fun _ x => decide (x.marker < E.nextId) := by
    refine Table.ext_get? fun d => Option.ext fun x => ?_
    rw [Table.get?_filter, Table.get?_filter, Option.filter_eq_some_iff, Option.filter_eq_some_iff]
    constructor
    · exact fun ⟨hx, hlt⟩ => ⟨hincluded d x hx, hlt⟩
    · exact fun ⟨hx, hlt⟩ => ⟨hstill d x hx (of_decide_eq_true hlt), hlt⟩
  have hhidden : ∀ x : Decoration, decide (x.marker < E.nextId) = false → E.overlayOf? x = none := by
    intro x hfuture
    rw [overlayOf?, Option.map_eq_none_iff]
    cases hm : E.markers.get? x.marker with
    | none => rfl
    | some m => exact absurd (hk.markers _ m hm) (of_decide_eq_false hfuture)
  show decorations.values.filterMap E.overlayOf? = E.decorations.values.filterMap E.overlayOf?
  rw [← Table.filterMap_values_filter (fun _ x _ => hhidden x), hsame,
    Table.filterMap_values_filter (fun _ x _ => hhidden x)]

/-- Numbers from `n` on are raised. -/
def raiseFrom (n gap : Nat) : Nat ↪o Nat :=
  OrderEmbedding.ofStrictMono (fun k => if k < n then k else k + gap) fun k l hkl => by
    dsimp only
    split_ifs <;> omega

lemma raiseFrom_of_lt {n gap k : Nat} (h : k < n) : raiseFrom n gap k = k :=
  if_pos h

lemma raiseFrom_of_le {n gap k : Nat} (h : n ≤ k) : raiseFrom n gap k = k + gap :=
  if_neg (Nat.not_lt.2 h)

/-- Raising numbers from one on keeps those that follow each other together. -/
lemma steady_raiseFrom (n gap : Nat) : Steady (raiseFrom n gap) n := by
  intro k hk
  rw [raiseFrom_of_le hk, raiseFrom_of_le (Nat.le_succ_of_le hk)]
  omega

/-! ## The settings -/

lemma PartialFold.settings_foldEach (ranges : List Range) (e : Editor) :
    (foldEach e ranges).2.settings = e.settings := by
  induction ranges generalizing e with
  | nil => rfl
  | cons r ranges ih => exact ih (e.fold r).2

/-- Putting a request in place touches no settings. -/
lemma Editor.settings_install (e : Editor) (request : FoldRequest) :
    (e.install request).2.2.settings = e.settings := by
  have hfolds := PartialFold.settings_foldEach
    (PartialFold.pieces e.text (e.clipRange request.range) request.preview.length)
    (e.createMarker request.range).2
  unfold install
  dsimp only
  generalize PartialFold.foldEach (e.createMarker request.range).2 _ = folded at hfolds ⊢
  exact (Label.onlyDraws_draw _ folded.2).settings.trans hfolds

namespace FoldedEditor

variable {s s' t : FoldedEditor} {E : Editor} {S : Settings} {on : Bool}
  {request : FoldRequest} {requests : List FoldRequest} {results : List FoldResult}

/-- The settings of the editor, and whether moves of the cursor are heeded. -/
def Configured (S : Settings) (on : Bool) (s : FoldedEditor) : Prop :=
  s.editor.settings = S ∧ s.highlighter.enabled = on

namespace Configured

lemma destroyFolding (h : s.Configured S on) (id : FoldingId) :
    (s.destroyFolding id).Configured S on := by
  unfold FoldedEditor.destroyFolding
  split
  · exact h
  · rename_i f hf
    refine ⟨?_, h.2⟩
    show (f.folds.destroy (f.label.hide s.editor).2).settings = S
    rw [(f.folds.destroy_still _).2, (f.label.hide_spec s.editor).2.1]
    exact h.1

/-- Processing touches no settings. -/
lemma process (h : s.Configured S on) : s.process.Configured S on := by
  refine process_keeps (P := fun t => t.Configured S on) (fun _ ht => ht) (fun t c ht => ?_)
    (fun t id on' ht => ?_) h
  · refine onMarkerChange_elim t c ?_ ?_ ?_ ?_ ?_
    · exact fun _ => ht
    · exact fun _ _ _ => ht
    · exact fun _ _ _ => ⟨(Label.onlyDraws_draw _ _).settings.trans ht.1, ht.2⟩
    · exact fun _ _ _ => ⟨(Label.onlyDraws_setStyle_hide _ _ _).settings.trans ht.1, ht.2⟩
    · exact fun id _ _ _ _ => ht.destroyFolding id
  · refine setHighlight_elim t id on' (fun _ => ht) fun f _ _ => ?_
    exact ⟨(Label.onlyDraws_setStyle _ _ _).settings.trans ht.1, ht.2⟩

lemma adopt (h : s.Configured S on) (request : FoldRequest) (marker : MarkerId)
    (folds : PartialFold) (label : Label) :
    (s.adopt request marker folds label).2.Configured S on :=
  ⟨(Label.onlyDraws_styled _ _ _).settings.trans h.1, h.2⟩

lemma createFolding {info : FoldingInfo} (h : s.Configured S on)
    (hc : s.createFolding request = .ok (info, s')) : s'.Configured S on := by
  obtain ⟨-, hadopt⟩ := createFolding_ok hc
  have hinstalled : (s.installed request).Configured S on := by
    refine ⟨?_, h.process.2⟩
    show (s.process.editor.install request).2.2.settings = S
    rw [Editor.settings_install]
    exact h.process.1
  have hresult := hinstalled.process.adopt request s.process.editor.nextId
    (s.process.editor.install request).1 (s.process.editor.install request).2.1
  rw [hadopt] at hresult
  exact hresult

/-- A batch leaves the settings as they were. -/
lemma foldAll (h : s.Configured S on) (hc : s.foldAll requests = .ok (results, s')) :
    s'.Configured S on := by
  obtain ⟨maxLineLength, t, heach, rfl⟩ := foldAll_ok hc
  have hp := h.process
  have hend : t.Configured { S with atomicSoftTabs := false } false := by
    refine foldEach_induction
      (P := fun _ t => t.Configured { S with atomicSoftTabs := false } false) ?_ ?_ heach ?_
    · exact fun _ _ _ ht => ht
    · exact fun _ _ _ _ _ ht _ _ hcreate => ht.createFolding hcreate
    · refine ⟨?_, rfl⟩
      show ({ s.process.editor.settings with atomicSoftTabs := false } : Settings) = _
      rw [hp.1]
  refine ⟨?_, hp.2⟩
  show ({ t.editor.settings with
    atomicSoftTabs := s.process.editor.settings.atomicSoftTabs } : Settings) = S
  rw [hend.1, hp.1]

/-- Taking all foldings down touches no settings. -/
lemma unfoldAll (h : s.Configured S on) : s.unfoldAll.Configured S on := by
  have hdown : (s.live.keys.foldl FoldedEditor.destroyFolding s).Configured S on :=
    List.foldlRecOn _ _ h fun _ ht id _ => ht.destroyFolding id
  exact process (s := s.cleared) hdown

end Configured

/-! ## An editor without foldings -/

/-- The editor without foldings, with empty queues and the number that is next. -/
def atRest (E : Editor) (n : Nat) (retired : Table Unit) : FoldedEditor :=
  { editor := { E with markerChanges := [], cursorMoves := [], nextId := n }, retired }

/-- An editor at rest has nothing to take down. -/
lemma unfoldAll_atRest (E : Editor) (n : Nat) (retired : Table Unit) :
    (atRest E n retired).unfoldAll = atRest E n retired :=
  process_of_quiet ⟨rfl, rfl⟩

/-- Nothing but the queues changes while nothing is live. -/
lemma emptied_process (hnone : ∀ j, s.live.get? j = none) : s.process.emptied = s.emptied := by
  refine (process_keeps (P := fun t => (∀ j, t.live.get? j = none) ∧ t.emptied = s.emptied)
    (fun _ ht => ht) ?_ ?_ ⟨hnone, rfl⟩).2
  · intro t c ht
    have hconcerns : ∀ {id f outcome}, ¬t.Concerns c id f outcome := fun hc =>
      absurd ((ht.1 _).symm.trans hc.live) (by simp)
    refine onMarkerChange_elim t c (fun _ => ht) ?_ ?_ ?_ ?_
    · exact fun _ _ hc => absurd hc hconcerns
    · exact fun _ _ hc => absurd hc hconcerns
    · exact fun _ _ hc => absurd hc hconcerns
    · exact fun _ _ _ hc _ => absurd hc hconcerns
  · intro t id on' ht
    exact setHighlight_elim t id on' (fun _ => ht) fun f hf _ =>
      absurd ((ht.1 id).symm.trans hf) (by simp)

lemma Quiet.emptied_eq (h : s.Quiet) : s.emptied = s := by
  unfold FoldedEditor.emptied
  rw [← h.1, ← h.2]

/-- Without foldings no row is filed. -/
lemma highlighter_unfoldAll (h : s.Configured S on) :
    s.unfoldAll.highlighter = { index := .empty, enabled := on } := by
  have hdown : (s.live.keys.foldl FoldedEditor.destroyFolding s).Configured S on :=
    List.foldlRecOn _ _ h fun _ ht id _ => ht.destroyFolding id
  have hcleared := congrArg FoldedEditor.highlighter (emptied_process s.live_cleared)
  show s.cleared.process.emptied.highlighter = _
  rw [hcleared, ← hdown.2]
  rfl

/-- An editor by itself has nothing to track. -/
lemma tracked_alone (ht : E.Tidy) : ({ editor := E } : FoldedEditor).Tracked [] := by
  refine ⟨ht, by simp, RowIndex.consistent_empty, ?_⟩
  intro id f hf
  exact absurd hf (by simp)

/-- An editor that is handed over is at rest when its queues have been emptied. -/
lemma unfoldAll_ofEditor (E : Editor) :
    ({ editor := E } : FoldedEditor).unfoldAll = atRest E E.nextId .empty := by
  have hquiet : ({ editor := E } : FoldedEditor).unfoldAll.Quiet := quiet_process _
  rw [← hquiet.emptied_eq]
  exact emptied_process (s := { editor := E }) fun _ => rfl

/-- What the foldings of an editor that was handed over keep, whatever is folded and unfolded. -/
structure Undoable (E : Editor) (s : FoldedEditor) : Prop where
  inOrder : s.InOrder E (({ editor := E } : FoldedEditor).estate nonePending) nonePending
  configured : s.Configured E.settings true

namespace Undoable

/-- An editor that has just been handed over can be given back as it is. -/
lemma start (hk : E.Kept) : Undoable E { editor := E } where
  inOrder := ⟨⟨by simp, by simp, by simp, by simp⟩, .refl (divided_alone hk)⟩
  configured := ⟨rfl, rfl⟩

lemma unfoldAll (h : Undoable E s) : Undoable E s.unfoldAll :=
  ⟨h.inOrder.unfoldAll, h.configured.unfoldAll⟩

lemma foldAll (h : Undoable E s) (hc : s.foldAll requests = .ok (results, s')) : Undoable E s' :=
  ⟨h.inOrder.foldAll hc, h.configured.foldAll hc⟩

/-- A decoration stays as it is, or it is gone with a marker that had not been handed out. -/
lemma decoration_or_gone (h : Undoable E s) {d : DecorationId} {x : Decoration}
    (hx : E.decorations.get? d = some x) :
    s.editor.decorations.get? d = some x ∨
      s.editor.decorations.get? d = none ∧ s.editor.markers.get? x.marker = none ∧
        E.nextId ≤ x.marker ∧ x.marker < s.editor.nextId := by
  rcases drawn_or_gone (s := { editor := E }) h.inOrder.course hx with
    hsame | ⟨hgone, hmarker, ⟨id, f, hf, -⟩ | hnumber⟩
  · exact Or.inl (hsame.trans hx)
  · exact absurd hf (by simp)
  · exact Or.inr ⟨hgone, hmarker, hnumber⟩

/-- A decoration that hangs on a number that has been handed out stays. -/
lemma get?_decorations (h : Undoable E s) {d : DecorationId} {x : Decoration}
    (hx : E.decorations.get? d = some x) (hlt : x.marker < E.nextId) :
    s.editor.decorations.get? d = some x := by
  rcases h.decoration_or_gone hx with hsame | ⟨-, -, hfuture, -⟩
  · exact hsame
  · exact absurd hlt (Nat.not_lt.2 hfuture)

/-- **Folding is undone exactly**, but that decorations on numbers of the future can be gone. -/
theorem unfoldAll_eq (h : Undoable E s) :
    ∃ decorations n retired, s.unfoldAll = atRest { E with decorations } n retired ∧ E.nextId ≤ n ∧
      E.decorations.Includes decorations ∧ ∀ d x, E.decorations.get? d = some x →
        x.marker < E.nextId → decorations.get? d = some x := by
  have hu := h.unfoldAll
  have hdivided := hu.inOrder.course.divided
  -- no folding is left, so all that is in the tables is the host's
  have hnone := s.live_unfoldAll
  have hfree : ∀ {has : Holding → Nat → Prop} {id k},
      ¬(s.unfoldAll.estate nonePending).holdings.Owns has id k := by
    intro has id k
    exact Holdings.not_owns_of_none ((holdings_of_none (hnone id)).trans rfl)
  have hlive : s.unfoldAll.live = .empty := Table.ext_get? hnone
  have howners : s.unfoldAll.owners = .empty := by
    refine Table.ext_get? fun k => ?_
    cases hk : s.unfoldAll.owners.get? k with
    | none => rfl
    | some id =>
      obtain ⟨f, hf, -⟩ := (hu.inOrder.owners k id).1 hk
      rw [hnone id] at hf
      exact absurd hf (by simp)
  have hfolds : s.unfoldAll.editor.folds = E.folds :=
    Table.ext_get? fun k => (hdivided.folds.shares hdivided.hostFolds).foreign k fun _ => hfree
  have hmarkers : s.unfoldAll.editor.markers = E.markers :=
    Table.ext_get? fun k => (hdivided.markers.shares hdivided.hostMarkers).foreign k fun _ => hfree
  have hquiet : s.unfoldAll.Quiet := quiet_process _
  refine ⟨s.unfoldAll.editor.decorations, s.unfoldAll.editor.nextId, s.unfoldAll.retired, ?_,
    hu.inOrder.course.later.next, fun d x hx => hdivided.decorations.foreign d x hx fun _ => hfree,
    fun d x hx hlt => hu.get?_decorations hx hlt⟩
  have heditor : s.unfoldAll.editor =
      { E with
        decorations := s.unfoldAll.editor.decorations, markerChanges := [], cursorMoves := []
        nextId := s.unfoldAll.editor.nextId } := by
    calc s.unfoldAll.editor
        = ⟨s.unfoldAll.editor.text, s.unfoldAll.editor.settings, s.unfoldAll.editor.cursor,
            s.unfoldAll.editor.folds, s.unfoldAll.editor.markers, s.unfoldAll.editor.decorations,
            s.unfoldAll.editor.markerChanges, s.unfoldAll.editor.cursorMoves,
            s.unfoldAll.editor.nextId⟩ := rfl
      _ = _ := by
        rw [show s.unfoldAll.editor.text = E.text from hdivided.text,
          show s.unfoldAll.editor.cursor = E.cursor from hdivided.cursor, hu.configured.1, hfolds,
          hmarkers, hquiet.1, hquiet.2]
  calc s.unfoldAll
      = ⟨s.unfoldAll.editor, s.unfoldAll.live, s.unfoldAll.owners, s.unfoldAll.retired,
          s.unfoldAll.highlighter⟩ := rfl
    _ = atRest { E with decorations := s.unfoldAll.editor.decorations } s.unfoldAll.editor.nextId
          s.unfoldAll.retired := by
        rw [hlive, howners, highlighter_unfoldAll h.configured]
        nth_rewrite 1 [heditor]
        rfl

end Undoable

/-! ## Batches on an editor at rest -/

/-- Editors at rest differ by their numbers. -/
lemma renumber_atRest (ht : E.Tidy) {n : Nat} (hn : E.nextId ≤ n) (retired retired' : Table Unit) :
    (atRest E n retired').editor =
      (atRest E E.nextId retired).editor.renumber (raiseFrom E.nextId (n - E.nextId)) := by
  have hφ : ∀ k, k < E.nextId → raiseFrom E.nextId (n - E.nextId) k = k :=
    fun k hk => raiseFrom_of_lt hk
  have hfolds := Table.renumber_of_below (g := id) ht.folds hφ fun _ _ _ => rfl
  have hmarkers := Table.renumber_of_below (g := id) ht.markers hφ fun _ _ _ => rfl
  have hdecorations := Table.renumber_of_below
    (g := Decoration.renumber (raiseFrom E.nextId (n - E.nextId))) ht.decorations hφ
    fun d x hx => by
      rw [Decoration.renumber, hφ _ (ht.decorated d x hx)]
  have hnext : raiseFrom E.nextId (n - E.nextId) E.nextId = n := by
    rw [raiseFrom_of_le (Nat.le_refl _)]
    omega
  unfold atRest Editor.renumber
  dsimp only
  rw [hfolds, hmarkers, hdecorations, hnext]
  rfl

/-- A batch is served alike on states with nothing queued that differ by numbers. -/
lemma foldAll_alike {φ ψ : Nat ↪o Nat} (hs : s.Quiet) (ht : t.Quiet)
    (heditor : t.editor = s.editor.renumber φ)
    (hlive : t.live = s.live.renumber ψ (Folding.renumber φ))
    (howners : t.owners = s.owners.renumber φ ψ) (hφ : Steady φ s.editor.nextId)
    (requests : List FoldRequest) :
    Alike (fun a b => b.1 = a.1.map (·.renumber ψ) ∧ b.2.editor = a.2.editor.renumber φ)
      (s.foldAll requests) (t.foldAll (requests.map (·.renumber ψ))) := by
  have hsettings : t.editor.settings = s.editor.settings := by
    rw [heditor, Editor.settings_renumber]
  unfold FoldedEditor.foldAll
  rw [process_of_quiet hs, process_of_quiet ht, hsettings]
  cases s.editor.settings.maxLineLength with
  | error fault => exact rfl
  | ok maxLineLength =>
    have hstart : Mirrors φ ψ s.editor.nextId
        { s with
          highlighter := s.highlighter.suspend.2
          editor := s.editor.setAtomicSoftTabs false }
        { t with
          highlighter := t.highlighter.suspend.2
          editor := t.editor.setAtomicSoftTabs false } := by
      refine ⟨?_, hlive, howners, rfl, rfl, Nat.le_refl _⟩
      rw [heditor]
      rfl
    have heach := hstart.foldEach hφ maxLineLength requests
    dsimp only
    -- both batches end with the same fault, or both are served
    generalize FoldedEditor.foldEach _ maxLineLength requests = x at heach ⊢
    generalize FoldedEditor.foldEach _ maxLineLength (requests.map (·.renumber ψ)) = y at heach ⊢
    obtain ⟨fault, rfl, rfl⟩ | ⟨a, b, rfl, rfl, hresults, hmirrors⟩ := heach.error_or_ok
    · exact rfl
    · refine ⟨hresults, ?_⟩
      show b.2.editor.setAtomicSoftTabs _ = (a.2.editor.setAtomicSoftTabs _).renumber φ
      rw [hmirrors.editor, hsettings]
      rfl

end FoldedEditor

/-! ## Folding and unfolding in any order -/

namespace AutoFolder

open FoldedEditor

variable {E : Editor} {a : AutoFolder}

/-- Folding the whole buffer, or taking all foldings down. -/
inductive Turn where
  | foldAll
  | unfoldAll

/-- The folder after a turn, whether it was successful or not. -/
def Turn.run (a : AutoFolder) : Turn → AutoFolder
  | .foldAll => a.foldAll.2
  | .unfoldAll => a.unfoldAll

/-- The folder after turns one after the other. -/
def take (a : AutoFolder) (turns : List Turn) : AutoFolder :=
  turns.foldl Turn.run a

/-- Later numbers for the requests are the same requests under new numbers. -/
lemma requestsFor_renumber (id gap : Nat) (occurrences : List Occurrence) :
    requestsFor (id + gap) occurrences =
      (requestsFor id occurrences).map (·.renumber (raiseFrom 0 gap)) := by
  induction occurrences generalizing id with
  | nil => rfl
  | cons o rest ih =>
    unfold requestsFor
    cases Preview.ofParams o.params with
    | error _ => exact ih id
    | ok preview =>
      have hnext : id + gap + 1 = id + 1 + gap := by omega
      dsimp only
      rw [hnext, ih (id + 1), List.map_cons]
      rfl

/-- The report does not depend on the numbers. -/
lemma report_renumber (ψ : Nat ↪o Nat) (skipped : Nat) (requests : List FoldRequest)
    (results : List FoldResult) :
    report skipped (requests.map (·.renumber ψ)) (results.map (·.renumber ψ)) =
      report skipped requests results := by
  unfold report
  congr 1
  · rw [List.countP_map]
    rfl
  · rw [List.zip_map, List.filterMap_map]
    rfl

/-- What a folder keeps, whatever is folded and unfolded. -/
structure Returns (E : Editor) (a : AutoFolder) : Prop where
  folded : Undoable E a.folded
  numbered : 1 ≤ a.nextId

lemma Returns.run (h : Returns E a) (turn : Turn) : Returns E (turn.run a) := by
  cases turn with
  | unfoldAll => exact ⟨h.folded.unfoldAll, h.numbered⟩
  | foldAll =>
    have hnumbered : ∀ requests : List FoldRequest, 1 ≤ a.nextId + requests.length :=
      fun requests => Nat.le_trans h.numbered (Nat.le_add_right _ _)
    unfold Turn.run AutoFolder.foldAll
    dsimp only
    split
    · exact ⟨h.folded.unfoldAll, hnumbered _⟩
    · rename_i hc
      exact ⟨h.folded.unfoldAll.foldAll hc, hnumbered _⟩

/-- Turns one after the other keep the way back. -/
lemma Returns.take (h : Returns E a) (turns : List Turn) : Returns E (a.take turns) := by
  induction turns generalizing a with
  | nil => exact h
  | cons turn turns ih => exact ih (h.run turn)

/-- Folding the whole buffer at rest has the same outcome whatever the next numbers are. -/
lemma foldAll_of_atRest (ht : E.Tidy) {b : AutoFolder} {n : Nat} {retired retired' : Table Unit}
    (hn : E.nextId ≤ n) (ha : a.folded.unfoldAll = atRest E n retired') (hid : 1 ≤ a.nextId)
    (hb : b.folded.unfoldAll = atRest E E.nextId retired) (hone : b.nextId = 1) :
    a.foldAll.1 = b.foldAll.1 ∧ a.foldAll.2.folded.editor =
      b.foldAll.2.folded.editor.renumber (raiseFrom E.nextId (n - E.nextId)) := by
  have heditor := renumber_atRest ht hn retired retired'
  have hrequests : requestsFor a.nextId (Occurrence.all E.text) =
      (requestsFor b.nextId (Occurrence.all E.text)).map
        (·.renumber (raiseFrom 0 (a.nextId - 1))) := by
    rw [← requestsFor_renumber, hone, Nat.add_sub_of_le hid]
  have halike := foldAll_alike (φ := raiseFrom E.nextId (n - E.nextId))
    (ψ := raiseFrom 0 (a.nextId - 1)) (s := atRest E E.nextId retired) (t := atRest E n retired')
    ⟨rfl, rfl⟩ ⟨rfl, rfl⟩ heditor rfl rfl (steady_raiseFrom _ _)
    (requestsFor b.nextId (Occurrence.all E.text))
  rw [← hrequests] at halike
  unfold AutoFolder.foldAll
  rw [ha, hb]
  dsimp only
  rw [show (atRest E n retired').editor.text = E.text from rfl,
    show (atRest E E.nextId retired).editor.text = E.text from rfl]
  have hlength : (requestsFor a.nextId (Occurrence.all E.text)).length =
      (requestsFor b.nextId (Occurrence.all E.text)).length := by
    rw [hrequests, List.length_map]
  rw [hlength]
  generalize (atRest E E.nextId retired).foldAll (requestsFor b.nextId (Occurrence.all E.text)) = x
    at halike ⊢
  generalize (atRest E n retired').foldAll (requestsFor a.nextId (Occurrence.all E.text)) = y
    at halike ⊢
  obtain ⟨fault, rfl, rfl⟩ | ⟨x, y, rfl, rfl, hresults, hmirrors⟩ := halike.error_or_ok
  · exact ⟨rfl, heditor⟩
  · refine ⟨?_, hmirrors⟩
    show Except.ok (report _ _ y.1) = Except.ok (report _ _ x.1)
    rw [hresults, hrequests, report_renumber]

/-- A buffer is folded as one in which nothing is drawn, but for what is drawn. -/
lemma foldAll_undrawn {decorations : Table Decoration} {n : Nat} {retired : Table Unit}
    (ha : a.folded.unfoldAll = atRest { E with decorations } n retired) :
    let b : AutoFolder := ⟨atRest E.undrawn n retired, a.nextId⟩
    b.foldAll.1 = a.foldAll.1 ∧
      b.foldAll.2.folded.editor.foldRanges = a.foldAll.2.folded.editor.foldRanges := by
  intro b
  have hredrawn : a.unfoldAll.Redrawn .any b := by
    refine ⟨?_, rfl⟩
    show a.folded.unfoldAll.Redrawn .any b.folded
    rw [ha]
    exact ⟨⟨_, trivial, rfl⟩, rfl⟩
  have hagain : a.unfoldAll.foldAll = a.foldAll := by
    unfold AutoFolder.foldAll AutoFolder.unfoldAll
    rw [ha, unfoldAll_atRest]
  rw [← hagain]
  exact ⟨hredrawn.foldAll.1, hredrawn.foldAll.2.folded.screen.1⟩

end AutoFolder

/-- An overlay as it is seen: without the number of its marker. -/
def OverlayView.seen (v : OverlayView) : Overlay × Range × Point :=
  (v.overlay, v.range, v.screen)

namespace AutoFolder

open FoldedEditor

/-- **Folding leaves no history.** However often an editor is folded and unfolded, what it had is
still there, but for decorations that hung on a number which had not been handed out and are gone
with the marker that got it. When all foldings are taken down it looks as before, nothing is queued,
and taking them down again changes nothing. Folding it again reports the same and folds the same as
folding it for the first time, and if no decoration hangs on a number of the future it shows the
same. -/
theorem take_leaves_no_history (E : Editor) (hE : E.Reachable) (turns : List Turn) :
    let a := (ofEditor E).take turns
    (a.folded.editor.text = E.text ∧ a.folded.editor.cursor = E.cursor ∧
      a.folded.editor.settings = E.settings ∧ a.folded.editor.folds.Includes E.folds ∧
      a.folded.editor.markers.Includes E.markers ∧
      ∀ d x, E.decorations.get? d = some x → a.folded.editor.decorations.get? d = some x ∨
        a.folded.editor.decorations.get? d = none ∧
          a.folded.editor.markers.get? x.marker = none ∧
          E.nextId ≤ x.marker ∧ x.marker < a.folded.editor.nextId) ∧
    (a.unfoldAll.folded.editor = a.dispose ∧ a.dispose.foldRanges = E.foldRanges ∧
      a.dispose.overlays = E.overlays ∧ a.dispose.screenLines = E.screenLines ∧
      a.dispose.hasPending = false ∧ a.unfoldAll.unfoldAll = a.unfoldAll) ∧
    a.foldAll.1 = (ofEditor E).foldAll.1 ∧
      a.foldAll.2.folded.editor.foldRanges = (ofEditor E).foldAll.2.folded.editor.foldRanges ∧
      ((∀ d x, E.decorations.get? d = some x → x.marker < E.nextId) →
        a.foldAll.2.folded.editor.overlays.map OverlayView.seen =
          (ofEditor E).foldAll.2.folded.editor.overlays.map OverlayView.seen) := by
  intro a
  have hstart : Returns E (ofEditor E) := ⟨.start hE.kept, Nat.le_refl _⟩
  have ha : Returns E a := hstart.take turns
  have hdivided := ha.folded.inOrder.course.divided
  obtain ⟨decorations, n, retired, hrest, hn, hincluded, hstill⟩ := ha.folded.unfoldAll_eq
  -- the editor that was handed over is at rest as soon as its queues are empty
  have hfirst : (ofEditor E).folded.unfoldAll = atRest E E.nextId .empty := unfoldAll_ofEditor E
  refine ⟨?_, ?_, ?_⟩
  · exact ⟨hdivided.text, hdivided.cursor, ha.folded.configured.1, hdivided.hostFolds,
      hdivided.hostMarkers, fun d x hx => ha.folded.decoration_or_gone hx⟩
  · have hagain : a.unfoldAll.unfoldAll = a.unfoldAll := by
      show ({ a with folded := a.folded.unfoldAll.unfoldAll } : AutoFolder) =
        { a with folded := a.folded.unfoldAll }
      rw [hrest, unfoldAll_atRest]
    refine ⟨rfl, ?_⟩
    unfold dispose
    rw [hrest]
    exact ⟨rfl, Editor.overlays_of_handedOut hE.kept hincluded hstill, rfl, rfl, hagain⟩
  · obtain ⟨hreport, hranges⟩ := foldAll_undrawn hrest
    obtain ⟨hreport', hranges'⟩ := foldAll_undrawn (a := ofEditor E) hfirst
    have hundrawn := Editor.tidy_undrawn hE.kept
    obtain ⟨hsame, heditor⟩ := foldAll_of_atRest (a := ⟨atRest E.undrawn n retired, a.nextId⟩)
      (b := ⟨atRest E.undrawn E.nextId .empty, 1⟩) hundrawn hn (unfoldAll_atRest ..) ha.numbered
      (unfoldAll_atRest ..) rfl
    refine ⟨hreport.symm.trans (hsame.trans hreport'), ?_, fun hd => ?_⟩
    · rw [← hranges, ← hranges', heditor, Editor.foldRanges_renumber]
      rfl
    · -- all decorations are back in place, so the editor at rest is the one from before
      have hall : decorations = E.decorations := Table.ext_get? fun d => Option.ext fun x =>
        ⟨hincluded d x, fun hx => hstill d x hx (hd d x hx)⟩
      rw [hall] at hrest
      obtain ⟨-, heditor⟩ := foldAll_of_atRest ⟨hE.kept, hd⟩ hn hrest ha.numbered hfirst rfl
      rw [heditor, Editor.overlays_renumber, List.map_map]
      rfl

/-- A host with a fold and a decorated marker on the line of a declaration, and the cursor inside. In
the second editor one more decoration hangs on a number of the future, and it does not come back.
-/
theorem take_leaves_no_history_decorated :
    let calls : List EditorCall := [.fold ⟨⟨0, 18⟩, ⟨0, 20⟩⟩, .createMarker ⟨⟨0, 2⟩, ⟨0, 4⟩⟩,
      .decorate 2 ⟨['x'], "c"⟩, .setCursor ⟨0, 3⟩]
    let E := Editor.runAll { text := "template<class T> struct S;".toList } calls
    let E' := Editor.runAll { text := "template<class T> struct S;".toList }
      (calls ++ [.decorate 5 ⟨['y'], "c"⟩])
    let turns : List Turn := [.foldAll, .unfoldAll, .foldAll]
    E.Reachable ∧ (∀ d x, E.decorations.get? d = some x → x.marker < E.nextId) ∧
      ((ofEditor E).take turns).folded.live.keys = [2] ∧ E.hasPending = true ∧
      ((ofEditor E).take turns).dispose.overlays = E.overlays ∧
      ((ofEditor E).take turns).foldAll.2.folded.editor.overlays.map OverlayView.seen =
        (ofEditor E).foldAll.2.folded.editor.overlays.map OverlayView.seen ∧
      E'.Reachable ∧ E'.decorations.keys = [3, 4] ∧
      ((ofEditor E').take turns).dispose.decorations.keys = [3] ∧
      ((ofEditor E').take turns).dispose.overlays = E'.overlays ∧
      ((ofEditor E').take turns).foldAll.1 = (ofEditor E').foldAll.1 := by
  intro calls E E' turns
  have hE : E.Reachable := ⟨_, _, _, rfl⟩
  have hE' : E'.Reachable := ⟨_, _, _, rfl⟩
  have hd : ∀ d x, E.decorations.get? d = some x → x.marker < E.nextId := by
    intro d x hx
    have hall : ∀ y ∈ E.decorations.values, y.marker < E.nextId := by decide
    exact hall x (Table.mem_values_iff.2 ⟨d, hx⟩)
  obtain ⟨-, ⟨-, -, hoverlays, -⟩, -, -, hseen⟩ := take_leaves_no_history E hE turns
  obtain ⟨-, ⟨-, -, hoverlays', -⟩, hreport', -⟩ := take_leaves_no_history E' hE' turns
  exact ⟨hE, hd, by decide +kernel, by decide, hoverlays, hseen hd, hE', by decide,
    by decide +kernel, hoverlays', hreport'⟩

/-- A decoration that hangs on a number of the future: the number becomes the marker of a folding,
and the decoration is gone when the folding is taken down. Folding again does not show it any more.
-/
theorem take_loses_early_decoration :
    let E := EditorCall.run { text := "template<class T> struct S;".toList }
      (.decorate 2 ⟨['x'], "c"⟩)
    let a := (ofEditor E).take [.foldAll, .unfoldAll]
    E.Reachable ∧ E.decorations.keys = [1] ∧ a.folded.editor.decorations.keys = [] ∧
      a.foldAll.2.folded.editor.overlays.map OverlayView.seen ≠
        (ofEditor E).foldAll.2.folded.editor.overlays.map OverlayView.seen := by
  intro E a
  exact ⟨⟨_, _, [.decorate 2 ⟨['x'], "c"⟩], rfl⟩, by decide, by decide +kernel, by decide +kernel⟩

end AutoFolder

end TemplateFolding
