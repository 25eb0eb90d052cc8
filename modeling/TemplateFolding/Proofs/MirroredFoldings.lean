import TemplateFolding.Proofs.Renumbering

/-!
# Batches on renumbered editors

A batch of requests is served in the same way whatever the numbers are. While it is served moves of
the cursor are not heeded, so the row index is of no matter, and neither is the table of the
foldings that are gone.
-/

namespace TemplateFolding

/-- Two outcomes that are the same fault, or results that are related. -/
def Alike {ε α β : Type} (related : α → β → Prop) : Except ε α → Except ε β → Prop
  | .ok a, .ok b => related a b
  | .error fault, .error fault' => fault' = fault
  | _, _ => False

/-- Outcomes that are alike are the same fault or related results. -/
lemma Alike.error_or_ok {ε α β : Type} {related : α → β → Prop} {x : Except ε α} {y : Except ε β}
    (h : Alike related x y) :
    (∃ fault, x = .error fault ∧ y = .error fault) ∨ ∃ a b, x = .ok a ∧ y = .ok b ∧ related a b := by
  cases x with
  | ok a =>
    cases y with
    | ok b => exact Or.inr ⟨a, b, rfl, rfl, h⟩
    | error fault => exact absurd h id
  | error fault =>
    cases y with
    | ok b => exact absurd h id
    | error fault' => exact Or.inl ⟨fault, rfl, congrArg Except.error h⟩

/-- Outcomes are alike if they are built from outcomes that are alike, in ways that are alike. -/
lemma Alike.bind {ε α β α' β' : Type} {related : α → β → Prop} {related' : α' → β' → Prop}
    {x : Except ε α} {y : Except ε β} {f : α → Except ε α'} {g : β → Except ε β'}
    (h : Alike related x y) (hfg : ∀ a b, related a b → Alike related' (f a) (g b)) :
    Alike related' (x.bind f) (y.bind g) := by
  obtain ⟨fault, rfl, rfl⟩ | ⟨a, b, rfl, rfl, hab⟩ := h.error_or_ok
  · exact rfl
  · exact hfg a b hab

def FoldRequest.renumber (request : FoldRequest) (ψ : Nat ↪o Nat) : FoldRequest :=
  { request with id := ψ request.id }

def FoldResult.renumber (result : FoldResult) (ψ : Nat ↪o Nat) : FoldResult :=
  { result with id := ψ result.id }

lemma nextId_le_create {e : Editor} {marker : MarkerId} {width : Nat} {made : PartialFold × Editor}
    (h : PartialFold.create e marker width = .ok made) : e.nextId ≤ made.2.nextId := by
  obtain ⟨p, e'⟩ := made
  obtain ⟨r, -, -, -, rfl⟩ := PartialFold.create_ok h
  exact (PartialFold.foldEach_frame (PartialFold.pieces e.text r width) e).2.2.2

namespace FoldedEditor

/-- The second state is the first one with other numbers, and neither heeds moves of the cursor. -/
structure Mirrors (φ ψ : Nat ↪o Nat) (n : Nat) (s t : FoldedEditor) : Prop where
  editor : t.editor = s.editor.renumber φ
  live : t.live = s.live.renumber ψ (Folding.renumber φ)
  owners : t.owners = s.owners.renumber φ ψ
  unheeded : s.highlighter.enabled = false
  unheeded' : t.highlighter.enabled = false
  grown : n ≤ s.editor.nextId

variable {φ ψ : Nat ↪o Nat} {n : Nat} {s t : FoldedEditor} {id : FoldingId} {f : Folding}

namespace Mirrors

/-- A folding is found in the mirror under its new number, with new numbers. -/
lemma get?_live (h : Mirrors φ ψ n s t) (id : FoldingId) :
    t.live.get? (ψ id) = (s.live.get? id).map (Folding.renumber φ) := by
  rw [h.live, Table.get?_renumber]

/-- The owner of a marker is found in the mirror under the new number of the marker. -/
lemma get?_owners (h : Mirrors φ ψ n s t) (k : MarkerId) :
    t.owners.get? (φ k) = (s.owners.get? k).map ψ := by
  rw [h.owners, Table.get?_renumber]

/-- Taking a folding down is mirrored. -/
lemma destroyFolding (h : Mirrors φ ψ n s t) (id : FoldingId) :
    Mirrors φ ψ n (s.destroyFolding id) (t.destroyFolding (ψ id)) := by
  unfold FoldedEditor.destroyFolding
  rw [h.get?_live]
  cases hf : s.live.get? id with
  | none => exact h
  | some f =>
    refine ⟨?_, ?_, ?_, h.unheeded, h.unheeded', ?_⟩
    · show ((f.folds.renumber φ).destroy ((f.label.renumber φ).hide t.editor).2).destroyMarker
        (φ f.marker) = _
      rw [h.editor, Label.hide_renumber, PartialFold.destroy_renumber,
        Editor.destroyMarker_renumber]
      rfl
    · show t.live.erase (ψ id) = _
      rw [h.live, Table.erase_renumber]
    · show t.owners.erase (φ f.marker) = _
      rw [h.owners, Table.erase_renumber]
    · show n ≤ (f.folds.destroy (f.label.hide s.editor).2).nextId
      rw [(Editor.destroyFolds_spec _ _).2.1, (f.label.hide_spec s.editor).2.2.2.1]
      exact h.grown

/-- A folding is replaced by another one, and the editor by another one. -/
lemma replace (h : Mirrors φ ψ n s t) (e : Editor) (h₁ h₂ : Highlighter) (id : FoldingId)
    (f : Folding) (hgrown : n ≤ e.nextId) (h₁off : h₁.enabled = false)
    (h₂off : h₂.enabled = false) :
    Mirrors φ ψ n { s with editor := e, live := s.live.insert id f, highlighter := h₁ }
      { t with
        editor := e.renumber φ
        live := t.live.insert (ψ id) (f.renumber φ)
        highlighter := h₂ } where
  editor := rfl
  live := by
    rw [h.live]
    exact Table.insert_renumber ..
  owners := h.owners
  unheeded := h₁off
  unheeded' := h₂off
  grown := hgrown

lemma followTranslated (h : Mirrors φ ψ n s t) (id : FoldingId) (f : Folding) (row : Nat) :
    Mirrors φ ψ n (s.followTranslated id f row)
      (t.followTranslated (ψ id) (f.renumber φ) row) := by
  have hnew := h.replace s.editor (s.highlighter.manage id row) (t.highlighter.manage (ψ id) row) id
    { f with info := { f.info with lastEvent := .moved } } h.grown h.unheeded h.unheeded'
  rw [← h.editor] at hnew
  exact hnew

lemma followVisible (h : Mirrors φ ψ n s t) (hφ : Steady φ n) (id : FoldingId) (f : Folding)
    (row : Nat) :
    Mirrors φ ψ n (s.followVisible id f row) (t.followVisible (ψ id) (f.renumber φ) row) := by
  have hnew := h.replace (f.label.draw s.editor).2 (s.highlighter.manage id row)
    (t.highlighter.manage (ψ id) row) id
    { f with
      label := (f.label.draw s.editor).1
      info := { f.info with lastEvent := .becameVisible } }
    (Nat.le_trans h.grown (f.label.onlyDraws_draw s.editor).nextId_le) h.unheeded h.unheeded'
  have hdraw : (f.renumber φ).label.draw t.editor =
      ((f.label.draw s.editor).1.renumber φ, (f.label.draw s.editor).2.renumber φ) := by
    rw [h.editor]
    exact Label.draw_renumber hφ h.grown f.label
  unfold FoldedEditor.followVisible
  rw [hdraw]
  exact hnew

lemma followHidden (h : Mirrors φ ψ n s t) (id : FoldingId) (f : Folding) :
    Mirrors φ ψ n (s.followHidden id f) (t.followHidden (ψ id) (f.renumber φ)) := by
  have hnew := h.replace
    ((f.label.setStyle s.editor .normal).1.hide (f.label.setStyle s.editor .normal).2).2
    (s.highlighter.forget id) (t.highlighter.forget (ψ id)) id
    { f with
      label := ((f.label.setStyle s.editor .normal).1.hide
        (f.label.setStyle s.editor .normal).2).1
      info := ⟨.becameHidden, false⟩ }
    (Nat.le_trans h.grown (f.label.onlyDraws_setStyle_hide s.editor .normal).nextId_le) h.unheeded
    h.unheeded'
  have hstyle : (f.renumber φ).label.setStyle t.editor .normal =
      ((f.label.setStyle s.editor .normal).1.renumber φ,
        (f.label.setStyle s.editor .normal).2.renumber φ) := by
    rw [h.editor]
    exact Label.setStyle_renumber f.label .normal
  unfold FoldedEditor.followHidden
  rw [hstyle]
  dsimp only
  rw [Label.hide_renumber]
  exact hnew

/-- The folding that a marker belongs to. -/
lemma get?_owners_bind (h : Mirrors φ ψ n s t) (k : MarkerId) :
    ((t.owners.get? (φ k)).bind fun id => (t.live.get? id).map (id, ·)) =
      ((s.owners.get? k).bind fun id => (s.live.get? id).map (id, ·)).map
        fun p => (ψ p.1, p.2.renumber φ) := by
  rw [h.get?_owners]
  cases s.owners.get? k with
  | none => rfl
  | some id =>
    simp only [Option.map_some, Option.bind_some]
    rw [h.get?_live, Option.map_map, Option.map_map]
    rfl

/-- Following a notification is mirrored. -/
lemma onMarkerChange (h : Mirrors φ ψ n s t) (hφ : Steady φ n) (c : MarkerChange) :
    Mirrors φ ψ n (s.onMarkerChange c) (t.onMarkerChange (c.renumber φ)) := by
  unfold FoldedEditor.onMarkerChange
  rw [show (c.renumber φ).marker = φ c.marker from rfl, h.get?_owners_bind]
  cases (s.owners.get? c.marker).bind fun id => (s.live.get? id).map (id, ·) with
  | none => exact h
  | some p =>
    obtain ⟨id, f⟩ := p
    simp only [Option.map_some]
    -- a change is classified by places on the screen alone
    have hsame : Transition.classify (c.renumber φ).old (c.renumber φ).new
        (f.renumber φ).initialScreen (c.renumber φ).valid (c.renumber φ).textChanged =
          Transition.classify c.old c.new f.initialScreen c.valid c.textChanged := rfl
    rw [hsame]
    generalize Transition.classify c.old c.new f.initialScreen c.valid c.textChanged = outcome
    cases outcome with
    | translated => exact h.followTranslated id f c.new.start.row
    | becameVisible => exact h.followVisible hφ id f c.new.start.row
    | becameHidden => exact h.followHidden id f
    | invalidated => exact h.destroyFolding id
    | destructive => exact h.destroyFolding id

/-- A move of the cursor is mirrored: the same rows are examined in the same order. -/
lemma onCursorMove (h : Mirrors φ ψ n s t) (m : CursorMove) :
    Mirrors φ ψ n (s.onCursorMove m) (t.onCursorMove m) := by
  -- a highlighter that is turned off does not look at its rows
  have hnone : ∀ u : FoldedEditor, u.highlighter.enabled = false → u.onCursorMove m = u := by
    intro u hu
    unfold FoldedEditor.onCursorMove Highlighter.onCursorMove
    rw [hu]
    rfl
  rw [hnone s h.unheeded, hnone t h.unheeded']
  exact h

lemma processRound (h : Mirrors φ ψ n s t) (hφ : Steady φ n) :
    Mirrors φ ψ n s.processRound t.processRound := by
  have hempty : Mirrors φ ψ n s.emptied t.emptied := by
    refine ⟨?_, h.live, h.owners, h.unheeded, h.unheeded', h.grown⟩
    show ({ t.editor with markerChanges := [], cursorMoves := [] } : Editor) = _
    rw [h.editor]
    rfl
  have hchanges : ∀ (changes : List MarkerChange) {u v : FoldedEditor}, Mirrors φ ψ n u v →
      Mirrors φ ψ n (changes.foldl FoldedEditor.onMarkerChange u)
        ((changes.map (MarkerChange.renumber φ)).foldl FoldedEditor.onMarkerChange v) := by
    intro changes
    induction changes with
    | nil => exact fun h => h
    | cons c changes ih => exact fun h => ih (h.onMarkerChange hφ c)
  have hmoves : ∀ (moves : List CursorMove) {u v : FoldedEditor}, Mirrors φ ψ n u v →
      Mirrors φ ψ n (moves.foldl FoldedEditor.onCursorMove u)
        (moves.foldl FoldedEditor.onCursorMove v) := by
    intro moves
    induction moves with
    | nil => exact fun h => h
    | cons m moves ih => exact fun h => ih (h.onCursorMove m)
  have hqueue : t.editor.markerChanges = s.editor.markerChanges.map (MarkerChange.renumber φ) := by
    rw [h.editor]
    rfl
  have hcursor : t.editor.cursorMoves = s.editor.cursorMoves := by
    rw [h.editor]
    rfl
  -- the queues that a round applies are those from before it emptied them
  have hround := hmoves s.editor.cursorMoves (hchanges s.editor.markerChanges hempty)
  rw [← hqueue] at hround
  nth_rewrite 2 [← hcursor] at hround
  exact hround

/-- Processing is mirrored, round by round. -/
theorem process (h : Mirrors φ ψ n s t) (hφ : Steady φ n) : Mirrors φ ψ n s.process t.process := by
  unfold FoldedEditor.process
  rw [show t.live.size = s.live.size by rw [h.live, Table.size_renumber]]
  generalize s.live.size + 1 = rounds
  induction rounds generalizing s t with
  | zero => exact h
  | succ rounds ih =>
    unfold FoldedEditor.processRounds
    rw [show t.editor.hasPending = s.editor.hasPending by
      rw [h.editor, Editor.hasPending_renumber]]
    split_ifs
    · exact ih (h.processRound hφ)
    · exact h

end Mirrors

/-! ## Requests -/

/-- Making a folding in terms of its steps. -/
lemma createFolding_eq (s : FoldedEditor) (request : FoldRequest) :
    s.createFolding request =
      (PartialFold.create (s.process.editor.createMarker request.range).2 s.process.editor.nextId
        request.preview.length).bind fun made =>
          .ok (({ s.process with
              editor := (Label.create made.2 s.process.editor.nextId request.preview).2 } :
                FoldedEditor).process.adopt request s.process.editor.nextId made.1
            (Label.create made.2 s.process.editor.nextId request.preview).1) := by
  unfold FoldedEditor.createFolding
  change (PartialFold.create (s.process.editor.createMarker request.range).2
    s.process.editor.nextId request.preview.length).bind _ = _
  congr 1
  funext made
  unfold FoldedEditor.adopt Label.styled
  simp only [Bool.decide_eq_true]
  rfl

namespace Mirrors

variable {request : FoldRequest}

/-- Taking a new folding in is mirrored, and tells the same about it. -/
lemma adopt (h : Mirrors φ ψ n s t) (request : FoldRequest) (marker : MarkerId)
    (folds : PartialFold) (label : Label) :
    (t.adopt (request.renumber ψ) (φ marker) (folds.renumber φ) (label.renumber φ)).1 =
        (s.adopt request marker folds label).1 ∧
      Mirrors φ ψ n (s.adopt request marker folds label).2
        (t.adopt (request.renumber ψ) (φ marker) (folds.renumber φ) (label.renumber φ)).2 := by
  have hscreen :
      (t.editor.markerScreenRange? (φ marker)).getD (t.editor.screenRange request.range) =
      (s.editor.markerScreenRange? marker).getD (s.editor.screenRange request.range) := by
    rw [h.editor, Editor.markerScreenRange?_renumber, Editor.screenRange_renumber]
  have hcursor : (t.editor.markerRange? (φ marker)).any (·.contains t.editor.cursor) =
      (s.editor.markerRange? marker).any (·.contains s.editor.cursor) := by
    rw [h.editor, Editor.markerRange?_renumber, Editor.cursor_renumber]
  unfold FoldedEditor.adopt
  dsimp only
  rw [show (request.renumber ψ).range = request.range from rfl, hscreen, hcursor]
  generalize (s.editor.markerScreenRange? marker).getD _ = screen
  generalize (s.editor.markerRange? marker).any _ = underCursor
  refine ⟨rfl, ?_⟩
  have hstyled : (label.renumber φ).styled t.editor underCursor =
      ((label.styled s.editor underCursor).1.renumber φ,
        (label.styled s.editor underCursor).2.renumber φ) := by
    rw [h.editor]
    unfold Label.styled
    split_ifs
    · exact Label.setStyle_renumber label .underCursor
    · rfl
  have hgrown : n ≤ (label.styled s.editor underCursor).2.nextId := by
    unfold Label.styled
    split_ifs
    · exact Nat.le_trans h.grown (label.onlyDraws_setStyle s.editor .underCursor).nextId_le
    · exact h.grown
  rw [hstyled]
  refine ⟨rfl, ?_, ?_, h.unheeded, h.unheeded', hgrown⟩
  · show t.live.insert (ψ request.id) _ = (s.live.insert request.id _).renumber ψ _
    rw [h.live]
    exact Table.insert_renumber (g := Folding.renumber φ) s.live request.id
      ⟨marker, folds, (label.styled s.editor underCursor).1, screen, { highlighted := underCursor }⟩
  · show t.owners.insert (φ marker) (ψ request.id) =
      (s.owners.insert marker request.id).renumber φ ψ
    rw [h.owners]
    exact Table.insert_renumber ..

/-- Making a folding is mirrored: both fail in the same way, or both tell the same. -/
theorem createFolding (h : Mirrors φ ψ n s t) (hφ : Steady φ n) (request : FoldRequest) :
    Alike (fun a b => b.1 = a.1 ∧ Mirrors φ ψ n a.2 b.2) (s.createFolding request)
      (t.createFolding (request.renumber ψ)) := by
  have hp := h.process hφ
  have hmarker := Editor.createMarker_renumber (hφ _ hp.grown) request.range
  have hrange : (s.process.editor.createMarker request.range).2.markerRange?
      s.process.editor.nextId = some (s.process.editor.clipRange request.range) := by
    simp [Editor.markerRange?, Editor.createMarker]
  have hcreate := PartialFold.create_renumber hφ (Nat.le_succ_of_le hp.grown) hrange
    request.preview.length
  rw [createFolding_eq, createFolding_eq, hp.editor]
  show Alike _ _ ((PartialFold.create ((s.process.editor.renumber φ).createMarker request.range).2
    (φ s.process.editor.nextId) request.preview.length).bind _)
  rw [hmarker, hcreate]
  cases hmade : PartialFold.create (s.process.editor.createMarker request.range).2
    s.process.editor.nextId request.preview.length with
  | error fault => exact rfl
  | ok made =>
    have hgrown : n ≤ made.2.nextId :=
      Nat.le_trans hp.grown (Nat.le_trans (Nat.le_succ _) (nextId_le_create hmade))
    have hlabel := Label.draw_renumber hφ hgrown
      ⟨s.process.editor.nextId, request.preview, .normal, none⟩
    have hinstalled : Mirrors φ ψ n
        { s.process with
          editor := (Label.create made.2 s.process.editor.nextId request.preview).2 }
        { t.process with
          editor := (Label.create (made.2.renumber φ) (φ s.process.editor.nextId)
            request.preview).2 } := by
      refine ⟨?_, hp.live, hp.owners, hp.unheeded, hp.unheeded', ?_⟩
      · exact congrArg Prod.snd hlabel
      · exact Nat.le_trans hgrown (Label.onlyDraws_draw _ _).nextId_le
    have hdone := (hinstalled.process hφ).adopt request s.process.editor.nextId made.1
      (Label.create made.2 s.process.editor.nextId request.preview).1
    have hsame : Label.renumber φ (Label.create made.2 s.process.editor.nextId request.preview).1 =
        (Label.create (made.2.renumber φ) (φ s.process.editor.nextId) request.preview).1 :=
      (congrArg Prod.fst hlabel).symm
    rw [hsame] at hdone
    exact hdone

/-- The results of a request. -/
def Answers (φ ψ : Nat ↪o Nat) (n : Nat) (a b : FoldResult × FoldedEditor) : Prop :=
  b.1 = a.1.renumber ψ ∧ Mirrors φ ψ n a.2 b.2

theorem foldOne (h : Mirrors φ ψ n s t) (hφ : Steady φ n) (maxLineLength : Option Nat)
    (request : FoldRequest) :
    Alike (Answers φ ψ n) (s.foldOne maxLineLength request)
      (t.foldOne maxLineLength (request.renumber ψ)) := by
  have hlive : t.live.contains (request.renumber ψ).id = s.live.contains request.id := by
    rw [h.live]
    exact Table.contains_renumber ..
  have hcheck : PartialFold.check t.editor (request.renumber ψ).range
      (request.renumber ψ).preview.length maxLineLength =
        PartialFold.check s.editor request.range request.preview.length maxLineLength := by
    rw [h.editor]
    exact PartialFold.check_renumber ..
  unfold FoldedEditor.foldOne
  rw [hlive]
  split_ifs with hcontains
  · exact ⟨rfl, h⟩
  · rw [hcheck]
    cases PartialFold.check s.editor request.range request.preview.length maxLineLength with
    | error fault => exact rfl
    | ok check =>
      simp only [bind, Except.bind]
      split_ifs
      · refine Alike.bind (h.createFolding hφ request) fun a b hab => ?_
        exact ⟨by rw [hab.1]; rfl, hab.2⟩
      · exact ⟨rfl, h⟩

/-- Serving requests one after the other is mirrored. -/
theorem foldEach (h : Mirrors φ ψ n s t) (hφ : Steady φ n) (maxLineLength : Option Nat)
    (requests : List FoldRequest) :
    Alike (fun a b => b.1 = a.1.map (·.renumber ψ) ∧ Mirrors φ ψ n a.2 b.2)
      (s.foldEach maxLineLength requests)
      (t.foldEach maxLineLength (requests.map (·.renumber ψ))) := by
  induction requests generalizing s t with
  | nil => exact ⟨rfl, h⟩
  | cons request requests ih =>
    unfold FoldedEditor.foldEach
    refine Alike.bind (h.foldOne hφ maxLineLength request) fun a b hab => ?_
    refine Alike.bind (ih hab.2) fun as bs habs => ?_
    refine ⟨?_, habs.2⟩
    rw [habs.1, hab.1]
    rfl

end Mirrors

end FoldedEditor

end TemplateFolding
