import TemplateFolding.Proofs.CallTables
import TemplateFolding.Proofs.Holdings

/-!
# Who owns what

The host and the foldings share one editor. The host has an account of its own: an editor on which
its calls alone are made, and which keeps pace with the numbers that the foldings take. What is in
the shared editor is what the account has, and what the foldings hold besides: a marker for each of
them, a decoration for each of them that is not hidden, and their folds.

There is one exception. A decoration goes with the marker it hangs on, and the host may hang one on
the marker of a folding. The account still has it when the folding has been taken down, but it is
missing from the editor. Nothing else of the host is ever missing.
-/

namespace TemplateFolding

open Holding
open Function (update update_self update_of_ne)

/-- What a folding holds. -/
def Folding.holding (f : Folding) : Holding :=
  ⟨f.marker, f.folds.folds, f.label.decoration⟩

/-! ## Parts of taking a folding down -/

namespace Label

variable {l : Label} {e : Editor}

/-- Hiding a label destroys its decoration, and does nothing else to the editor. -/
lemma hide_spec (l : Label) (e : Editor) :
    (l.hide e).2.text = e.text ∧ (l.hide e).2.settings = e.settings ∧
      (l.hide e).2.cursor = e.cursor ∧ (l.hide e).2.nextId = e.nextId ∧
      (l.hide e).2.folds = e.folds ∧ (l.hide e).2.markers = e.markers ∧
      ∀ d, (l.hide e).2.decorations.get? d =
        if l.decoration = some d then none else e.decorations.get? d := by
  unfold hide
  split
  · rename_i d hd
    refine ⟨rfl, rfl, rfl, rfl, rfl, rfl, fun d' => ?_⟩
    rw [Editor.destroyDecoration, Table.get?_erase, hd]
    simp only [Option.some.injEq, eq_comm]
  · rename_i hnone
    refine ⟨rfl, rfl, rfl, rfl, rfl, rfl, fun d' => ?_⟩
    rw [hnone, if_neg (by simp)]

lemma kept_hide (h : e.Kept) : (l.hide e).2.Kept := by
  unfold hide
  split
  · rename_i d _
    exact h.run (.destroyDecoration d)
  · exact h

end Label

namespace PartialFold

lemma destroy_still (p : PartialFold) (e : Editor) :
    (p.destroy e).cursor = e.cursor ∧ (p.destroy e).settings = e.settings := by
  unfold destroy
  generalize p.folds = ids
  induction ids generalizing e with
  | nil => exact ⟨rfl, rfl⟩
  | cons id ids ih =>
    obtain ⟨hcursor, hsettings⟩ := ih (e.destroyFold id)
    rw [List.foldl_cons, hcursor, hsettings, Editor.destroyFold]
    split <;> exact ⟨rfl, rfl⟩

lemma kept_destroy (p : PartialFold) {e : Editor} (h : e.Kept) : (p.destroy e).Kept := by
  unfold destroy
  generalize p.folds = ids
  induction ids generalizing e with
  | nil => exact h
  | cons id ids ih => exact ih (h.run (.destroyFold id))

end PartialFold

namespace FoldedEditor

/-! ## The estate of the foldings -/

variable {s s' : FoldedEditor} {host : Editor} {E₀ : Estate} {pending pending' : Holdings}
  {id : FoldingId} {f f' : Folding} {request : FoldRequest} {requests : List FoldRequest}
  {results : List FoldResult}

/-- What each folding holds. One that is being made is not live yet, and what it holds is pending.
-/
def holdings (s : FoldedEditor) (pending : Holdings) : Holdings := fun id =>
  match s.live.get? id with
  | some f => some f.holding
  | none => pending id

/-- The editor with what each folding holds. -/
def estate (s : FoldedEditor) (pending : Holdings) : Estate :=
  ⟨s.editor, s.holdings pending⟩

/-- No folding is being made. -/
def nonePending : Holdings := fun _ => none

/-- The tables of the foldings agree with each other. -/
structure Registered (s : FoldedEditor) (pending : Holdings) : Prop where
  owners : ∀ k id, s.owners.get? k = some id ↔ ∃ f, s.live.get? id = some f ∧ f.marker = k
  retired : ∀ id f, s.live.get? id = some f → s.retired.get? id = none
  label : ∀ id f, s.live.get? id = some f → f.label.marker = f.marker
  made : ∀ id f, s.live.get? id = some f → pending id = none

/-- The tables agree, and the estate is what deals have made of `E₀`. -/
structure InOrder (host : Editor) (E₀ : Estate) (pending : Holdings) (s : FoldedEditor) : Prop
    extends Registered s pending where
  course : Course host E₀ (s.estate pending)

@[simp] lemma estate_editor (s : FoldedEditor) (pending : Holdings) :
    (s.estate pending).editor = s.editor := rfl

/-- A folding that is live has what it holds. -/
lemma holdings_of_live (hf : s.live.get? id = some f) : s.holdings pending id = some f.holding := by
  simp only [holdings, hf]

/-- A folding that is not live has what is set aside for it. -/
lemma holdings_of_none (hid : s.live.get? id = none) : s.holdings pending id = pending id := by
  simp only [holdings, hid]

lemma holdings_congr (hlive : s'.live.get? id = s.live.get? id)
    (hpending : pending' id = pending id) : s'.holdings pending' id = s.holdings pending id := by
  simp only [holdings, hlive, hpending]

/-- The editor of an estate is replaced, and the holding of one folding. -/
lemma estate_eq_set {held : Option Holding} (hself : s'.holdings pending' id = held)
    (hlive : ∀ j, j ≠ id → s'.live.get? j = s.live.get? j)
    (hpending : ∀ j, j ≠ id → pending' j = pending j) :
    s'.estate pending' = (s.estate pending).set s'.editor id held := by
  rw [estate, Estate.set]
  congr 1
  funext j
  by_cases hj : j = id
  · rw [hj, update_self, hself]
  · rw [update_of_ne hj]
    exact holdings_congr (hlive j hj) (hpending j hj)

/-- A folding is entered, whether it was live before or its parts were pending. -/
lemma estate_insert (hlive : s'.live = s.live.insert id f')
    (hpending : ∀ j, j ≠ id → pending' j = pending j) :
    s'.estate pending' = (s.estate pending).set s'.editor id (some f'.holding) := by
  refine estate_eq_set (holdings_of_live ?_) (fun j hj => ?_) hpending
  · rw [hlive, Table.get?_insert_self]
  · rw [hlive, Table.get?_insert_of_ne _ _ hj]

/-- Without a folding its holding is gone from the estate. -/
lemma estate_erase (hlive : s'.live = s.live.erase id) (hid : pending id = none) :
    s'.estate pending = (s.estate pending).set s'.editor id none := by
  refine estate_eq_set ?_ (fun j hj => ?_) fun _ _ => rfl
  · rw [← hid]
    exact holdings_of_none (by rw [hlive, Table.get?_erase_self])
  · rw [hlive, Table.get?_erase_of_ne _ hj]

/-- The parts of a folding are pending. -/
lemma estate_pending (hid : s.live.get? id = none) (e : Editor) (held : Holding) :
    ({ s with editor := e } : FoldedEditor).estate (update nonePending id (some held)) =
      (s.estate nonePending).set e id (some held) := by
  refine estate_eq_set ?_ (fun _ _ => rfl) fun j hj => update_of_ne hj ..
  exact (holdings_of_none hid).trans (update_self ..)

/-- Without foldings all of an editor is the host's. -/
lemma divided_alone {e : Editor} (hk : e.Kept) :
    Divided (({ editor := e } : FoldedEditor).estate nonePending) e := by
  have hfree : ∀ {has : Holding → Nat → Prop} {id k},
      ¬(({ editor := e } : FoldedEditor).estate nonePending).holdings.Owns has id k :=
    Holdings.not_owns_of_none rfl
  have hsplits : ∀ {α : Type} {has : Holding → Nat → Prop} (table : Table α),
      (({ editor := e } : FoldedEditor).estate nonePending).holdings.Splits has table table :=
    fun _ => ⟨fun _ _ hk _ => hk, fun _ _ ho => absurd ho hfree, fun _ _ _ ho => absurd ho hfree⟩
  refine ⟨hk, rfl, rfl, hsplits _, hsplits _, hsplits _, fun _ _ hk => hk, fun _ _ hk => hk,
    hk.decorations, fun _ _ hid => absurd hid ?_⟩
  simp [estate, holdings, nonePending]

namespace Registered

/-- The tables agree when a folding is crossed out. -/
lemma erase (h : s.Registered pending) (hf : s.live.get? id = some f)
    (hlive : s'.live = s.live.erase id) (howners : s'.owners = s.owners.erase f.marker)
    (hretired : s'.retired = s.retired.insert id ()) : s'.Registered pending := by
  have hget : ∀ j g, s'.live.get? j = some g → j ≠ id ∧ s.live.get? j = some g := by
    intro j g hg
    rw [hlive, Table.get?_erase] at hg
    split_ifs at hg with hj
    exact ⟨hj, hg⟩
  refine ⟨fun k j => ?_, fun j g hg => ?_, fun j g hg => h.label j g (hget j g hg).2,
    fun j g hg => h.made j g (hget j g hg).2⟩
  · rw [howners, hlive, Table.get?_erase, Table.get?_erase]
    by_cases hk : k = f.marker
    · rw [if_pos hk]
      by_cases hj : j = id
      · simp [hj]
      · -- no other folding stands on the marker
        rw [if_neg hj]
        refine ⟨fun hno => absurd hno (by simp), fun hex => ?_⟩
        have hown := (h.owners k j).2 hex
        rw [hk, (h.owners f.marker id).2 ⟨f, hf, rfl⟩] at hown
        exact absurd (Option.some.inj hown).symm hj
    · rw [if_neg hk, h.owners k j]
      by_cases hj : j = id
      · rw [if_pos hj, hj, hf]
        simp [Ne.symm hk]
      · rw [if_neg hj]
  · obtain ⟨hj, hlive⟩ := hget j g hg
    rw [hretired, Table.get?_insert_of_ne _ _ hj]
    exact h.retired j g hlive

/-- The tables agree when a folding is entered on a marker that no folding has. -/
lemma insert (h : s.Registered pending) (hid : s.live.get? id = none)
    (howner : s.owners.get? f.marker = none) (hlabel : f.label.marker = f.marker)
    (hlive : s'.live = s.live.insert id f) (howners : s'.owners = s.owners.insert f.marker id)
    (hretired : s'.retired = s.retired.erase id) : s'.Registered nonePending := by
  refine ⟨fun k j => ?_, fun j g hg => ?_, fun j g hg => ?_, fun _ _ _ => rfl⟩
  · rw [howners, hlive, Table.get?_insert, Table.get?_insert]
    by_cases hk : k = f.marker
    · rw [if_pos hk]
      by_cases hj : j = id
      · simp [hj, hk]
      · rw [if_neg hj]
        refine ⟨fun heq => absurd (Option.some.inj heq).symm hj, fun hex => ?_⟩
        have hown := (h.owners k j).2 hex
        rw [hk, howner] at hown
        exact absurd hown (by simp)
    · rw [if_neg hk, h.owners k j]
      by_cases hj : j = id
      · rw [if_pos hj, hj, hid]
        simp [Ne.symm hk]
      · rw [if_neg hj]
  · rw [hlive, Table.get?_insert] at hg
    rw [hretired, Table.get?_erase]
    split_ifs at hg ⊢ with hj
    · rfl
    · exact h.retired j g hg
  · rw [hlive, Table.get?_insert] at hg
    split_ifs at hg with hj
    · rw [← Option.some.inj hg]
      exact hlabel
    · exact h.label j g hg

/-- The tables agree when a folding gives way to another one on its marker. -/
lemma relabel (h : s.Registered pending) (hf : s.live.get? id = some f)
    (hlive : s'.live = s.live.insert id f') (hmarker : f'.marker = f.marker)
    (hlabel : f'.label.marker = f.label.marker) (howners : s'.owners = s.owners)
    (hretired : s'.retired = s.retired) : s'.Registered pending := by
  have hget : ∀ j g, s'.live.get? j = some g → ∃ g₀, s.live.get? j = some g₀ ∧
      g.marker = g₀.marker ∧ g.label.marker = g₀.label.marker := by
    intro j g hg
    rw [hlive, Table.get?_insert] at hg
    split_ifs at hg with hj
    · rw [hj, ← Option.some.inj hg]
      exact ⟨f, hf, hmarker, hlabel⟩
    · exact ⟨g, hg, rfl, rfl⟩
  refine ⟨fun k j => ?_, fun j g hg => ?_, fun j g hg => ?_, fun j g hg => ?_⟩
  · rw [howners, h.owners k j, hlive, Table.get?_insert]
    split_ifs with hj
    · rw [hj, hf]
      simp [hmarker]
    · rfl
  · obtain ⟨g₀, hg₀, -⟩ := hget j g hg
    rw [hretired]
    exact h.retired j g₀ hg₀
  · obtain ⟨g₀, hg₀, hm, hl⟩ := hget j g hg
    rw [hm, hl]
    exact h.label j g₀ hg₀
  · obtain ⟨g₀, hg₀, -⟩ := hget j g hg
    exact h.made j g₀ hg₀

end Registered

/-- Taking down the parts of a folding gives up what it holds. -/
lemma deal_takeDown {E : Estate} (hkept : E.editor.Kept)
    (hid : E.holdings id = some f.holding) :
    Deal id E (E.set ((f.folds.destroy (f.label.destroy E.editor)).destroyMarker f.marker) id
      none) := by
  obtain ⟨htext, -, hcursor, hnext, hfolds, hmarkers, hdecorations⟩ := f.label.hide_spec E.editor
  obtain ⟨htext', hnext', hdecorations', hfolds'⟩ :=
    Editor.destroyFolds_spec f.folds (f.label.destroy E.editor)
  have hcursor' := (f.folds.destroy_still (f.label.destroy E.editor)).1
  have hkept' := f.folds.kept_destroy (Label.kept_hide (l := f.label) hkept)
  refine Deal.release hid (hkept'.run (.destroyMarker f.marker)) (htext'.trans htext)
    (hcursor'.trans hcursor) (hnext'.trans hnext) ?_ ?_ ?_
  · intro k
    refine (hfolds' k).trans ?_
    show _ = if k ∈ f.folds.folds then none else E.editor.folds.get? k
    rw [← hfolds]
    rfl
  · intro k
    refine (Table.get?_erase _ _ _).trans ?_
    rw [markers_destroyFolds]
    show (if k = f.marker then none else (f.label.hide E.editor).2.markers.get? k) = _
    rw [hmarkers]
    rfl
  · intro d x
    show ((f.folds.destroy (f.label.destroy E.editor)).decorations.filter
      fun _ y => y.marker != f.marker).get? d = some x ↔ _
    rw [Table.get?_filter, Option.filter_eq_some_iff, hdecorations']
    show (f.label.hide E.editor).2.decorations.get? d = some x ∧ _ ↔ _
    rw [hdecorations d]
    show _ ↔ E.editor.decorations.get? d = some x ∧ f.label.decoration ≠ some d ∧
      x.marker ≠ f.marker
    split_ifs with hd <;> simp [hd]

namespace InOrder

/-- A folding changes its label, and keeps the rest. -/
lemma relabel (h : s.InOrder host E₀ pending) (hf : s.live.get? id = some f)
    (hlive : s'.live = s.live.insert id f') (hmarker : f'.marker = f.marker)
    (hlabel : f'.label.marker = f.label.marker) (howners : s'.owners = s.owners)
    (hretired : s'.retired = s.retired)
    (hcourse : Course host E₀ ((s.estate pending).set s'.editor id (some f'.holding))) :
    s'.InOrder host E₀ pending := by
  refine ⟨h.toRegistered.relabel hf hlive hmarker hlabel howners hretired, ?_⟩
  rw [estate_insert hlive fun _ _ => rfl]
  exact hcourse

/-- A folding is taken down. -/
lemma destroyFolding (h : s.InOrder host E₀ pending) (id : FoldingId) :
    (s.destroyFolding id).InOrder host E₀ pending := by
  cases hf : s.live.get? id with
  | none =>
    unfold FoldedEditor.destroyFolding
    rw [hf]
    exact h
  | some f =>
    have hdeal := deal_takeDown h.course.divided.kept
      (holdings_of_live hf : (s.estate pending).holdings id = some f.holding)
    unfold FoldedEditor.destroyFolding
    rw [hf]
    refine ⟨h.erase hf rfl rfl rfl, ?_⟩
    rw [estate_erase rfl (h.made id f hf)]
    exact h.course.deal hdeal

/-- The editor changes apart from what is divided. -/
lemma aside (h : s.InOrder host E₀ pending) (hkept : s'.editor.Kept)
    (htext : s'.editor.text = s.editor.text) (hcursor : s'.editor.cursor = s.editor.cursor)
    (hfolds : s'.editor.folds = s.editor.folds) (hmarkers : s'.editor.markers = s.editor.markers)
    (hdecorations : s'.editor.decorations = s.editor.decorations)
    (hnext : s'.editor.nextId = s.editor.nextId) (hlive : s'.live = s.live)
    (howners : s'.owners = s.owners) (hretired : s'.retired = s.retired) :
    s'.InOrder host E₀ pending := by
  have hdeal := Deal.aside (E := s.estate pending) 0 hkept htext hcursor hfolds hmarkers
    hdecorations hnext
  have hestate : s'.estate pending = ⟨s'.editor, (s.estate pending).holdings⟩ := by
    rw [estate]
    congr 1
    funext j
    exact holdings_congr (by rw [hlive]) rfl
  refine ⟨⟨?_, ?_, ?_, ?_⟩, ?_⟩
  · rw [howners, hlive]
    exact h.owners
  · rw [hretired, hlive]
    exact h.retired
  · rw [hlive]
    exact h.label
  · rw [hlive]
    exact h.made
  · rw [hestate]
    exact h.course.deal hdeal

/-! ## Applying notifications -/

/-- With the queues emptied, what belongs to whom is as before. -/
lemma emptied (h : s.InOrder host E₀ pending) : s.emptied.InOrder host E₀ pending := by
  have hkept := (h.course.divided.kept.run .drainMarkerChanges).run .drainCursorMoves
  exact h.aside hkept rfl rfl rfl rfl rfl rfl rfl rfl rfl

/-- Following a notification keeps the estate in order. -/
lemma onMarkerChange (h : s.InOrder host E₀ pending) (c : MarkerChange) :
    (s.onMarkerChange c).InOrder host E₀ pending := by
  have hkept := h.course.divided.kept
  have hholds : ∀ {id f outcome}, s.Concerns c id f outcome →
      (s.estate pending).holdings id = some f.holding := fun hc => holdings_of_live hc.live
  refine onMarkerChange_elim s c ?_ ?_ ?_ ?_ ?_
  · exact fun _ => h
  · intro id f hc
    have hid := hholds hc
    exact h.relabel hc.live rfl rfl rfl rfl rfl (h.course.deal (.unchanged hkept hid))
  · intro id f hc
    refine h.relabel hc.live rfl rfl (Label.marker_draw _ _) rfl rfl ?_
    exact h.course.deal (.draw hkept (hholds hc) (h.label id f hc.live) rfl)
  · intro id f hc
    refine h.relabel hc.live rfl rfl (Label.marker_hide _ _) rfl rfl ?_
    -- the label is restyled, then hidden
    have hstyled := h.course.deal (.restyle hkept (hholds hc) rfl .normal)
    have hhidden := hstyled.deal (Deal.hide (l := (f.label.setStyle s.editor .normal).1)
      hstyled.divided.kept (Estate.holdings_set_self ..) rfl)
    rw [Estate.set_set] at hhidden
    exact hhidden
  · exact fun id _ _ _ _ => h.destroyFolding id

lemma setHighlight (h : s.InOrder host E₀ pending) (id : FoldingId) (on : Bool) :
    (s.setHighlight id on).InOrder host E₀ pending := by
  refine setHighlight_elim s id on (fun _ => h) fun f hf _ => ?_
  have hid : (s.estate pending).holdings id = some f.holding := holdings_of_live hf
  exact h.relabel hf rfl rfl rfl rfl rfl
    (h.course.deal (.restyle h.course.divided.kept hid rfl _))

end InOrder

namespace InOrder

/-- Processing keeps the estate in order. -/
lemma process (h : s.InOrder host E₀ pending) : s.process.InOrder host E₀ pending :=
  process_keeps (fun _ ht => ht.emptied) (fun _ c ht => ht.onMarkerChange c)
    (fun _ id on ht => ht.setHighlight id on) h

/-! ## Making a folding -/

/-- What a folding holds whose parts have just been put in place. -/
def newHolding (e : Editor) (request : FoldRequest) : Holding :=
  ⟨e.nextId, (e.install request).1.folds, (e.install request).2.1.decoration⟩

/-- The parts of a new folding are put in place. -/
lemma install (h : s.InOrder host E₀ nonePending) (request : FoldRequest)
    (hid : s.live.get? request.id = none) :
    ({ s with editor := (s.editor.install request).2.2 } : FoldedEditor).InOrder host E₀
      (update nonePending request.id (some (newHolding s.editor request))) := by
  have hfree : (s.estate nonePending).holdings request.id = none := holdings_of_none hid
  have hmarker := h.course.deal (.createMarker h.course.divided.kept hfree request.range)
  have hfolds := hmarker.foldEach (Estate.holdings_set_self ..)
    (PartialFold.pieces s.editor.text (s.editor.clipRange request.range) request.preview.length)
  rw [Estate.set_set] at hfolds
  have hlabel : Course host E₀ ((s.estate nonePending).set (s.editor.install request).2.2 request.id
      (some (newHolding s.editor request))) := by
    unfold newHolding Editor.install
    dsimp only [Estate.set, List.nil_append, estate_editor] at hfolds ⊢
    generalize PartialFold.foldEach (s.editor.createMarker request.range).2 _ = folded at hfolds ⊢
    have hdrawn := hfolds.deal (.decorate hfolds.divided.kept (update_self ..) rfl
      ⟨request.preview, LabelStyle.normal.name⟩)
    rw [Estate.set, Function.update_idem] at hdrawn
    exact hdrawn
  refine ⟨⟨h.owners, h.retired, h.label, fun j f hf => ?_⟩, ?_⟩
  · have hj : j ≠ request.id := by
      intro heq
      have hf : s.live.get? j = some f := hf
      rw [heq, hid] at hf
      exact absurd hf (by simp)
    rw [update_of_ne hj]
    rfl
  · rw [estate_pending hid]
    exact hlabel

/-- A folding whose parts are in place is registered. -/
lemma adopt (held : Holding) (folds : PartialFold) (label : Label)
    (h : s.InOrder host E₀ (update nonePending request.id (some held)))
    (hfolds : folds.folds = held.folds) (hlabel : label.marker = held.marker)
    (hdrawn : label.decoration = held.decoration) :
    (s.adopt request held.marker folds label).2.InOrder host E₀ nonePending := by
  have hid : s.live.get? request.id = none := by
    cases hget : s.live.get? request.id with
    | none => rfl
    | some f =>
      have hmade := h.made request.id f hget
      rw [update_self] at hmade
      exact absurd hmade (by simp)
  have hheld : (s.estate (update nonePending request.id (some held))).holdings request.id =
      some held := by
    refine (holdings_of_none hid).trans ?_
    rw [update_self]
  have howner : s.owners.get? held.marker = none := by
    cases hown : s.owners.get? held.marker with
    | none => rfl
    | some j =>
      obtain ⟨g, hg, hgm⟩ := (h.owners _ _).1 hown
      have hj := h.course.divided.markers.single held.marker j request.id
        ⟨g.holding, holdings_of_live hg, hgm⟩ ⟨held, hheld, rfl⟩
      rw [hj, hid] at hg
      exact absurd hg (by simp)
  unfold FoldedEditor.adopt
  dsimp only
  generalize (s.editor.markerScreenRange? held.marker).getD _ = screen
  generalize (s.editor.markerRange? held.marker).any _ = underCursor
  have hstyled : Course host E₀ ((s.estate (update nonePending request.id (some held))).set
        (label.styled s.editor underCursor).2 request.id (some held)) ∧
      (label.styled s.editor underCursor).1.marker = label.marker ∧
      (label.styled s.editor underCursor).1.decoration = label.decoration := by
    unfold Label.styled
    split_ifs
    · exact ⟨h.course.deal (.restyle h.course.divided.kept hheld hdrawn _), rfl, rfl⟩
    · exact ⟨h.course.deal (.unchanged h.course.divided.kept hheld), rfl, rfl⟩
  obtain ⟨hcourse, hmarker, hdecoration⟩ := hstyled
  refine ⟨h.insert hid howner (hmarker.trans hlabel) rfl rfl rfl, ?_⟩
  -- what was pending is now held by the folding itself
  rw [estate_insert rfl fun j hj => (update_of_ne hj ..).symm, Folding.holding, hfolds, hdecoration,
    hdrawn]
  exact hcourse

/-- A folding is made. -/
theorem createFolding (h : s.InOrder host E₀ nonePending) {info : FoldingInfo}
    (hid : s.live.get? request.id = none) (hc : s.createFolding request = .ok (info, s')) :
    s'.InOrder host E₀ nonePending := by
  obtain ⟨-, hadopt⟩ := createFolding_ok hc
  have hprocess := h.process
  -- notifications that are applied first make no folding live
  have hid' : s.process.live.get? request.id = none := live_process hid
  have hinstalled := (hprocess.install request hid').process
  have hresult := InOrder.adopt (newHolding s.process.editor request)
    (s.process.editor.install request).1 (s.process.editor.install request).2.1 hinstalled
    rfl (Label.marker_draw _ _) rfl
  have heq : ((s.installed request).process.adopt request s.process.editor.nextId
      (s.process.editor.install request).1 (s.process.editor.install request).2.1).2 = s' := by
    rw [hadopt]
  rw [← heq]
  exact hresult

/-- A batch is served. -/
theorem foldAll (h : s.InOrder host E₀ nonePending)
    (hc : s.foldAll requests = .ok (results, s')) : s'.InOrder host E₀ nonePending := by
  obtain ⟨maxLineLength, t, heach, rfl⟩ := foldAll_ok hc
  have hprocess := h.process
  have hstart : s.batchStart.InOrder host E₀ nonePending :=
    hprocess.aside (hprocess.course.divided.kept.run (.configure _)) rfl rfl rfl rfl rfl rfl rfl rfl
      rfl
  have hend : t.InOrder host E₀ nonePending := by
    refine foldEach_induction (P := fun _ t => t.InOrder host E₀ nonePending) ?_ ?_ heach hstart
    · exact fun _ _ _ ht => ht
    · intro request rest t t' info ht hlive _ hcreate
      exact ht.createFolding hlive hcreate
  exact hend.aside (hend.course.divided.kept.run (.configure _)) rfl rfl rfl rfl rfl rfl rfl rfl rfl

/-- All foldings are taken down. -/
theorem unfoldAll (h : s.InOrder host E₀ nonePending) :
    s.unfoldAll.InOrder host E₀ nonePending := by
  have hdown : (s.live.keys.foldl FoldedEditor.destroyFolding s).InOrder host E₀ nonePending :=
    List.foldlRecOn _ _ h fun _ ht id _ => ht.destroyFolding id
  have hforget : s.cleared.InOrder host E₀ nonePending :=
    hdown.aside hdown.course.divided.kept rfl rfl rfl rfl rfl rfl rfl rfl rfl
  exact hforget.process

end InOrder

end FoldedEditor

/-! ## Tables shared with the host -/

/-- A table consists of what the host has, and of what the foldings hold of it: what no folding
holds is as the host has it, what a folding holds is not the host's, and no two foldings hold the
same. -/
structure Holdings.Shares {α : Type} (hs : Holdings) (has : Holding → Nat → Prop)
    (table host : Table α) : Prop where
  foreign : ∀ k, (∀ id, ¬hs.Owns has id k) → table.get? k = host.get? k
  apart : ∀ k id, hs.Owns has id k → host.get? k = none
  single : ∀ k id id', hs.Owns has id k → hs.Owns has id' k → id = id'

namespace Holdings

variable {α : Type} {hs : Holdings} {has : Holding → Nat → Prop} {table table' host host' : Table α}

/-- A table is shared if it is divided and the host misses nothing. -/
lemma Splits.shares (h : hs.Splits has table host) (hi : table.Includes host) :
    hs.Shares has table host where
  foreign := by
    intro k hfree
    apply Option.ext
    intro v
    exact ⟨fun hk => h.foreign k v hk hfree, hi k v⟩
  apart := h.apart
  single := h.single

/-- A table that is shared in full is split, with nothing missing. -/
lemma Shares.splits (h : hs.Shares has table host) : hs.Splits has table host where
  foreign := fun k _ hk hfree => (h.foreign k hfree).symm.trans hk
  apart := h.apart
  single := h.single

/-- The host misses nothing of a table that is shared. -/
lemma Shares.includes (h : hs.Shares has table host) : table.Includes host := by
  intro k v hk
  rw [h.foreign k fun id ho => ?_, hk]
  rw [h.apart k id ho] at hk
  exact absurd hk (by simp)

section Run

variable (after : Nat → Option α → Option α) (htable : ∀ k, table'.get? k = after k (table.get? k))
  (hhost : ∀ k, host'.get? k = after k (host.get? k))
  (hheld : ∀ k id, hs.Owns has id k → after k none = none)
include htable hhost hheld

/-- The same is done to the entries of both tables, and no entry comes where a folding holds one. -/
lemma Shares.run (h : hs.Shares has table host) : hs.Shares has table' host' where
  foreign := by
    intro k hfree
    rw [htable, hhost, h.foreign k hfree]
  apart := by
    intro k id ho
    rw [hhost, h.apart k id ho]
    exact hheld k id ho
  single := h.single

/-- The same is done to the entries of both tables. No entry comes where a folding holds one, and
none where the host has one that is missing from the table. -/
lemma Splits.run (hpast : ∀ k v, host.get? k = some v → after k none = none)
    (h : hs.Splits has table host) : hs.Splits has table' host' where
  foreign := by
    intro k v hk hfree
    rw [htable] at hk
    rw [hhost]
    cases hv : table.get? k with
    | some w =>
      rw [h.foreign k w hv hfree, ← hv]
      exact hk
    | none =>
      rw [hv] at hk
      cases hw : host.get? k with
      | none => exact hk
      | some w =>
        rw [hpast k w hw] at hk
        exact absurd hk (by simp)
  apart := by
    intro k id ho
    rw [hhost, h.apart k id ho]
    exact hheld k id ho
  single := h.single

end Run

end Holdings

/-! ## What foldings give up -/

namespace FoldedEditor

variable {s s' : FoldedEditor} {host : Editor} {id : FoldingId} {f : Folding} {d : DecorationId}
  {x : Decoration}

/-- What each folding holds while none is being made. -/
def held (s : FoldedEditor) : Holdings := s.holdings nonePending

/-- A folding is not there any more. -/
def TakenDown (s : FoldedEditor) (f : Folding) : Prop :=
  ∀ id g, s.live.get? id = some g → g.marker ≠ f.marker

/-- What the foldings give up from one state to the next. -/
structure Releases (s s' : FoldedEditor) (host : Editor) : Prop where
  /-- Nothing remains of a folding that is taken down, and nothing hangs on its marker. -/
  all : ∀ id f, s.live.get? id = some f → s'.TakenDown f →
    s'.editor.markers.get? f.marker = none ∧ (∀ k ∈ f.folds.folds, s'.editor.folds.get? k = none) ∧
      (∀ d, f.label.decoration = some d → s'.editor.decorations.get? d = none) ∧
      ∀ d x, s'.editor.decorations.get? d = some x → x.marker ≠ f.marker
  /-- A fold that is gone belonged to a folding that is taken down. -/
  folds : ∀ k r, s.editor.folds.get? k = some r → s'.editor.folds.get? k = some r ∨
    ∃ id f, s.live.get? id = some f ∧ k ∈ f.folds.folds ∧ s'.TakenDown f
  /-- A decoration of the host is gone only with a marker that it hung on, which was that of a
  folding that is taken down or has been handed out meanwhile. -/
  drawn : ∀ d x, host.decorations.get? d = some x →
    s'.editor.decorations.get? d = s.editor.decorations.get? d ∨
    s'.editor.decorations.get? d = none ∧ s'.editor.markers.get? x.marker = none ∧
      ((∃ id f, s.live.get? id = some f ∧ f.marker = x.marker ∧ s'.TakenDown f) ∨
        s.editor.nextId ≤ x.marker ∧ x.marker < s'.editor.nextId)

/-- Between calls what is held is what the live foldings hold. -/
lemma held_eq_some_iff {h : Holding} :
    s.held id = some h ↔ ∃ f, s.live.get? id = some f ∧ f.holding = h := by
  cases hf : s.live.get? id with
  | none =>
    rw [held, holdings_of_none hf]
    simp [nonePending]
  | some f =>
    rw [held, holdings_of_live hf]
    simp

lemma owns_of_live {has : Holding → Nat → Prop} {k : Nat} (hf : s.live.get? id = some f)
    (hk : has f.holding k) : s.held.Owns has id k :=
  ⟨f.holding, holdings_of_live hf, hk⟩

/-- The owner of a marker is a live folding on that marker. -/
lemma exists_live_of_owns {k : MarkerId} (ho : s.held.Owns HasMarker id k) :
    ∃ f, s.live.get? id = some f ∧ f.marker = k := by
  obtain ⟨h, hheld, hk⟩ := ho
  obtain ⟨f, hf, rfl⟩ := held_eq_some_iff.1 hheld
  exact ⟨f, hf, hk⟩

section Releases

variable (hc : Course host (s.estate nonePending) (s'.estate nonePending))
include hc

/-- The marker of a folding that has been taken down is gone. -/
lemma takenDown_marker (hf : s.live.get? id = some f) (hdown : s'.TakenDown f) :
    s'.editor.markers.get? f.marker = none := by
  cases hm : s'.editor.markers.get? f.marker with
  | none => rfl
  | some m =>
    -- nobody holds the marker now, so it would be the host's
    have hhost := hc.divided.markers.foreign f.marker m hm fun j ho => by
      obtain ⟨g, hg, hgm⟩ := exists_live_of_owns ho
      exact hdown j g hg hgm
    rw [hc.start.markers.apart f.marker id (owns_of_live hf rfl)] at hhost
    exact absurd hhost (by simp)

/-- A folding whose marker is gone has been taken down. -/
lemma takenDown_of_marker (hnone : s'.editor.markers.get? f.marker = none) : s'.TakenDown f := by
  intro j g hg hgm
  obtain ⟨m, hm⟩ := (hc.divided.placed j g.holding (holdings_of_live hg)).marker
  have hsome : s'.editor.markers.get? g.marker = some m := hm
  rw [hgm, hnone] at hsome
  exact absurd hsome (by simp)

lemma takenDown_folds (hf : s.live.get? id = some f) (hdown : s'.TakenDown f) {k : FoldId}
    (hk : k ∈ f.folds.folds) : s'.editor.folds.get? k = none := by
  have howns : (s.estate nonePending).holdings.Owns HasFold id k := owns_of_live hf hk
  cases hr : s'.editor.folds.get? k with
  | none => rfl
  | some r =>
    have hhost := hc.divided.folds.foreign k r hr fun j ho => by
      obtain ⟨held, hheld, hkj⟩ := ho
      -- a folding that holds an old fold is older than the fold
      have hold := ((hc.divided.placed j held hheld).folds k hkj).1
      have hlt := hc.start.owns_fold howns
      obtain ⟨h₀, hid₀, hm₀, hfolds₀⟩ := hc.later.holdings j held hheld (Nat.lt_trans hold hlt)
      have hj := hc.start.folds.single k j id ⟨h₀, hid₀, hfolds₀ k hkj hlt⟩ howns
      obtain ⟨g, hg, rfl⟩ := held_eq_some_iff.1 hheld
      rw [hj] at hid₀
      rw [show (s.estate nonePending).holdings id = some f.holding from holdings_of_live hf] at hid₀
      rw [← Option.some.inj hid₀] at hm₀
      exact hdown j g hg hm₀.symm
    rw [hc.start.folds.apart k id howns] at hhost
    exact absurd hhost (by simp)

/-- Nothing hangs on the marker of a folding that has been taken down. -/
lemma takenDown_drawn (hf : s.live.get? id = some f) (hdown : s'.TakenDown f)
    (hx : s'.editor.decorations.get? d = some x) : x.marker ≠ f.marker := by
  intro hmarker
  -- some folding would stand on the marker, with a label there or with what the host has drawn
  have howner : ∃ j, s'.held.Owns HasMarker j f.marker := by
    by_cases ho : ∃ j, s'.held.Owns HasDecoration j d
    · obtain ⟨j, ho⟩ := ho
      obtain ⟨y, hy, howns⟩ := hc.divided.owns_decoration ho
      rw [← Option.some.inj (hx.symm.trans hy), hmarker] at howns
      exact ⟨j, howns⟩
    · push Not at ho
      have hlt := hc.start.handedOut d x (hc.divided.decorations.foreign d x hx ho)
      rw [← hmarker]
      exact hc.later.hung d x hlt hx ⟨id, owns_of_live hf hmarker.symm⟩
  obtain ⟨j, ho⟩ := howner
  obtain ⟨g, hg, hgm⟩ := exists_live_of_owns ho
  exact hdown j g hg hgm

/-- The decoration of a folding that has been taken down is gone. -/
lemma takenDown_decoration (hf : s.live.get? id = some f) (hdown : s'.TakenDown f)
    (hd : f.label.decoration = some d) : s'.editor.decorations.get? d = none := by
  have hlt := hc.start.owns_decoration_lt (owns_of_live hf hd)
  cases hx : s'.editor.decorations.get? d with
  | none => rfl
  | some x =>
    -- it hangs where it hung, on the marker of the folding
    obtain ⟨x₀, hx₀, hm₀⟩ := hc.later.drawn d x hlt hx
    obtain ⟨x₁, hx₁, hm₁⟩ :=
      (hc.start.placed id f.holding (holdings_of_live hf)).decoration d hd
    rw [Option.some.inj (hx₀.symm.trans hx₁), hm₁] at hm₀
    exact absurd hm₀.symm (takenDown_drawn hc hf hdown hx)

/-- What the host has drawn stays as it is, unless the marker that it hangs on is given up. -/
lemma drawn_or_gone (hx : host.decorations.get? d = some x) :
    s'.editor.decorations.get? d = s.editor.decorations.get? d ∨
    s'.editor.decorations.get? d = none ∧ s'.editor.markers.get? x.marker = none ∧
      ((∃ id f, s.live.get? id = some f ∧ f.marker = x.marker ∧ s'.TakenDown f) ∨
        s.editor.nextId ≤ x.marker ∧ x.marker < s'.editor.nextId) := by
  have hlt := hc.start.handedOut d x hx
  have hsame : ∀ y, s.editor.decorations.get? d = some y → y = x := by
    intro y hy
    have hhost := hc.start.decorations.foreign d y hy fun j => hc.start.decorations.not_owns hx
    exact Option.some.inj (hhost.symm.trans hx)
  cases hx' : s'.editor.decorations.get? d with
  | some x' =>
    left
    obtain ⟨x₀, hx₀, -⟩ := hc.later.drawn d x' hlt hx'
    -- no folding has taken an old decoration of the host
    have hhost := hc.divided.decorations.foreign d x' hx' fun j ho =>
      hc.start.decorations.not_owns hx (hc.later.labels j d ho hlt)
    obtain rfl := hsame x₀ hx₀
    exact (hhost.symm.trans hx).trans hx₀.symm
  | none =>
    cases hx₀ : s.editor.decorations.get? d with
    | none => exact Or.inl rfl
    | some y =>
      obtain rfl := hsame y hx₀
      rcases hc.later.decorations d y hx₀ with ⟨x', hsome⟩ | ⟨j, ho⟩ | ⟨hnext, hnone, hwhose⟩
      · exact absurd (hx'.symm.trans hsome) (by simp)
      · exact absurd ho (hc.start.decorations.not_owns hx)
      · refine Or.inr ⟨rfl, hnone, ?_⟩
        rcases hwhose with ⟨j, ho⟩ | hnew
        · obtain ⟨g, hg, hgm⟩ := exists_live_of_owns ho
          exact Or.inl ⟨j, g, hg, hgm, takenDown_of_marker hc (hgm ▸ hnone)⟩
        · exact Or.inr ⟨hnew, hnext⟩

/-- What a course of deals gives up. -/
lemma releases : s.Releases s' host where
  all := fun _ _ hf hdown =>
    ⟨takenDown_marker hc hf hdown, fun _ hk => takenDown_folds hc hf hdown hk,
      fun _ hd => takenDown_decoration hc hf hdown hd, fun _ _ hx => takenDown_drawn hc hf hdown hx⟩
  folds := by
    intro k r hk
    rcases hc.later.folds k r hk with hend | ⟨id, held, hheld, hkf, hfree⟩
    · exact Or.inl hend
    · obtain ⟨f, hf, rfl⟩ := held_eq_some_iff.1 hheld
      right
      refine ⟨id, f, hf, hkf, fun j g hg hgm => ?_⟩
      exact hfree j (owns_of_live hg hgm)
  drawn := fun _ _ hx => drawn_or_gone hc hx

end Releases

end FoldedEditor

/-! ## The account of the host -/

/-- What is the host's: an editor on which the calls of the host alone are made, and the numbers
that were handed out while the foldings were at work. -/
structure Account where
  editor : Editor
  taken : Nat → Prop

namespace Account

/-- A call of the host is entered. -/
def enter (a : Account) (call : EditorCall) : Account :=
  { a with editor := call.run a.editor }

/-- The foldings have been at work. What the host has is as it was, and the numbers keep pace. -/
def keepPace (a : Account) (e : Editor) : Account where
  editor := { a.editor with nextId := e.nextId }
  taken := fun k => a.taken k ∨ a.editor.nextId ≤ k ∧ k < e.nextId

end Account

namespace FoldedEditor

variable {s s' : FoldedEditor} {host : Editor} {a : Account} {id : FoldingId} {f : Folding}
  {call : EditorCall}

/-- The host destroys neither the marker nor the decoration of a folding. -/
def Respects (s : FoldedEditor) : EditorCall → Prop
  | .destroyMarker k => ∀ id f, s.live.get? id = some f → f.marker ≠ k
  | .destroyDecoration d => ∀ id f, s.live.get? id = some f → f.label.decoration ≠ some d
  | _ => True

/-- What is asked of the foldings: to follow the notifications, to serve a batch, to take one
folding down or all of them. -/
inductive Managed (s : FoldedEditor) : FoldedEditor → Prop where
  | process : Managed s s.process
  | foldAll (requests : List FoldRequest) : Managed s (s.afterBatch requests)
  | destroyFolding (id : FoldingId) : Managed s (s.destroyFolding id)
  | unfoldAll : Managed s s.unfoldAll

/-- The states that the host and the foldings lead to, with the account of the host. -/
inductive Shared : FoldedEditor → Account → Prop where
  | start (text : Text) (settings : Settings) :
      Shared { editor := { text, settings } } ⟨{ text, settings }, fun _ => False⟩
  | host {s : FoldedEditor} {a : Account} {call : EditorCall} :
      Shared s a → s.Respects call → Shared (s.host fun e => call.run e) (a.enter call)
  | manage {s s' : FoldedEditor} {a : Account} :
      Shared s a → s.Managed s' → Shared s' (a.keepPace s'.editor)

/-- A decoration of the host is missing from the editor. It hung on a number that was handed out
while the foldings were at work, and that is no marker any more. -/
def Missing (s : FoldedEditor) (a : Account) (d : DecorationId) (x : Decoration) : Prop :=
  s.editor.decorations.get? d = none ∧ a.taken x.marker ∧ s.editor.markers.get? x.marker = none

/-- The tables agree, the editor is divided, and the account of the host is complete but for
decorations that are missing. -/
structure Accounted (s : FoldedEditor) (a : Account) : Prop extends Registered s nonePending where
  divided : Divided (s.estate nonePending) a.editor
  kept : a.editor.Kept
  next : a.editor.nextId = s.editor.nextId
  taken : ∀ k, a.taken k → k < s.editor.nextId
  numbered : ∀ id f, s.live.get? id = some f → a.taken f.marker
  drawn : ∀ d x, a.editor.decorations.get? d = some x →
    s.editor.decorations.get? d = some x ∨ s.Missing a d x

/-- Where the account is complete the estate is in order. -/
lemma Accounted.inOrder (h : s.Accounted a) :
    s.InOrder a.editor (s.estate nonePending) nonePending :=
  ⟨h.toRegistered, .refl h.divided⟩

/-- Whatever is asked of the foldings keeps the estate in order. -/
lemma Managed.inOrder {E₀ : Estate} (hm : s.Managed s') (h : s.InOrder host E₀ nonePending) :
    s'.InOrder host E₀ nonePending := by
  cases hm with
  | process => exact h.process
  | foldAll requests =>
    unfold afterBatch
    split
    · rename_i hc
      exact h.foldAll hc
    · exact h
  | destroyFolding id => exact h.destroyFolding id
  | unfoldAll => exact h.unfoldAll

/-- The foldings do something, and the numbers that they take are entered. -/
lemma Accounted.managed (h : s.Accounted a) (hm : s.Managed s') :
    s'.Accounted (a.keepPace s'.editor) := by
  have hend := hm.inOrder h.inOrder
  have hc := hend.course
  have hd := hc.divided
  have hnext : a.editor.nextId ≤ s'.editor.nextId := by
    rw [h.next]
    exact hc.later.next
  refine ⟨hend.toRegistered, ?_, h.kept.raise hnext, rfl, ?_, ?_, ?_⟩
  · exact ⟨hd.kept, hd.text, hd.cursor, hd.folds, hd.markers, hd.decorations, hd.hostFolds,
      hd.hostMarkers, hd.handedOut, hd.placed⟩
  · rintro k (hold | ⟨-, hlt⟩)
    · exact Nat.lt_of_lt_of_le (h.taken k hold) hc.later.next
    · exact hlt
  · intro id f hf
    by_cases hlt : f.marker < s.editor.nextId
    · -- a folding on an old marker was there before
      obtain ⟨h₀, hheld, hm₀, -⟩ := hc.later.holdings id f.holding (holdings_of_live hf) hlt
      obtain ⟨g, hg, rfl⟩ := held_eq_some_iff.1 hheld
      have hgm : g.marker = f.marker := hm₀
      exact Or.inl (hgm ▸ h.numbered id g hg)
    · right
      rw [h.next]
      exact ⟨Nat.le_of_not_lt hlt, hd.owns_marker_lt (owns_of_live hf rfl)⟩
  · intro d x hx
    rcases drawn_or_gone hc hx with hsame | ⟨hgone, hnone, hwhose⟩
    · rw [hsame]
      rcases h.drawn d x hx with hin | ⟨hout, htaken, hnone⟩
      · exact Or.inl hin
      · exact Or.inr ⟨hsame.trans hout, Or.inl htaken, hc.later.markers _ (h.taken _ htaken) hnone⟩
    · refine Or.inr ⟨hgone, ?_, hnone⟩
      rcases hwhose with ⟨id, f, hf, hfm, -⟩ | ⟨hge, hlt⟩
      · exact Or.inl (hfm ▸ h.numbered id f hf)
      · right
        rw [h.next]
        exact ⟨hge, hlt⟩

/-- What a folding holds stays in place under a call that respects it. -/
lemma Accounted.placed_host (h : s.Accounted a) (hr : s.Respects call)
    (hf : s.live.get? id = some f) : f.holding.PlacedIn (call.run s.editor) := by
  have hkept := h.divided.kept
  obtain ⟨⟨m, hm⟩, hfolds, hdrawn⟩ := h.divided.placed id f.holding (holdings_of_live hf)
  have hmarker : ∀ k, call = .destroyMarker k → f.marker ≠ k := by
    rintro k rfl
    exact hr id f hf
  refine ⟨?_, fun k hk => ?_, fun d hd => ?_⟩
  · rw [call.get?_markers_run s.editor f.holding.marker]
    have hm : s.editor.markers.get? f.holding.marker = some m := hm
    rw [hm]
    exact call.markerAfter_some _ hmarker
  · exact ⟨(hfolds k hk).1, Nat.lt_of_lt_of_le (hfolds k hk).2 (s.editor.nextId_le_run call)⟩
  · obtain ⟨x, hx, hxm⟩ := hdrawn d hd
    have hx : s.editor.decorations.get? d = some x := hx
    have hdestroy : ∀ d', call = .destroyDecoration d' → d ≠ d' := by
      rintro d' rfl heq
      exact hr id f hf (heq ▸ hd)
    obtain ⟨x', hx', hxm'⟩ := call.decorationAfter_some d (hkept.decorations d x hx)
      (fun k hk => hxm.trans_ne (hmarker k hk)) hdestroy
    refine ⟨x', ?_, hxm'.trans hxm⟩
    rw [call.get?_decorations_run s.editor d, hx]
    exact hx'

/-- A call of the host leaves the editor divided. -/
lemma Accounted.divided_host (h : s.Accounted a) (hr : s.Respects call) :
    Divided ((s.host fun e => call.run e).estate nonePending) (call.run a.editor) := by
  have hd := h.divided
  have htext : a.editor.text = s.editor.text := hd.text.symm
  obtain ⟨htext', hcursor', hnext'⟩ := call.run_congr htext hd.cursor.symm h.next
  have hcongr := fun k => call.after_congr k htext h.next
  have hfolds := (hd.folds.shares hd.hostFolds).run (fun k => call.foldAfter s.editor k)
    (call.get?_folds_run s.editor)
    (fun k => (call.get?_folds_run a.editor k).trans (by rw [(hcongr k).1]))
    (fun k _ ho => (call.after_none s.editor k (hd.owns_fold ho)).1)
  have hmarkers := (hd.markers.shares hd.hostMarkers).run (fun k => call.markerAfter s.editor k)
    (call.get?_markers_run s.editor)
    (fun k => (call.get?_markers_run a.editor k).trans (by rw [(hcongr k).2.1]))
    (fun k _ ho => (call.after_none s.editor k (hd.owns_marker_lt ho)).2.1)
  have hdecorations := hd.decorations.run (fun k => call.decorationAfter s.editor k)
    (call.get?_decorations_run s.editor)
    (fun k => (call.get?_decorations_run a.editor k).trans (by rw [(hcongr k).2.2]))
    (fun k _ ho => (call.after_none s.editor k (hd.owns_decoration_lt ho)).2.2)
    (fun k x hx => (call.after_none s.editor k (hd.handedOut k x hx)).2.2)
  refine ⟨hd.kept.run call, htext'.symm, hcursor'.symm, hfolds.splits, hmarkers.splits,
    hdecorations, hfolds.includes, hmarkers.includes, ?_, ?_⟩
  · exact (h.kept.run call).decorations.mono (Nat.le_of_eq hnext')
  · intro id h' hid
    obtain ⟨f, hf, rfl⟩ := held_eq_some_iff.1 hid
    exact h.placed_host hr hf

/-- What is missing stays so when the host makes a call, and nothing else goes missing. -/
lemma Accounted.drawn_host (h : s.Accounted a) {d : DecorationId} {x : Decoration}
    (hx : (call.run a.editor).decorations.get? d = some x) :
    (call.run s.editor).decorations.get? d = some x ∨
      (s.host fun e => call.run e).Missing (a.enter call) d x := by
  have hd := h.divided
  have htext : a.editor.text = s.editor.text := hd.text.symm
  have hcongr := (call.after_congr d htext h.next).2.2
  rw [call.get?_decorations_run, hcongr] at hx
  rw [call.get?_decorations_run]
  cases hy : a.editor.decorations.get? d with
  | none =>
    left
    rw [hy] at hx
    cases hz : s.editor.decorations.get? d with
    | none => exact hx
    | some z =>
      -- the number is in use, so no call gives it to the host
      have hlt := hd.kept.decorations d z hz
      rw [(call.after_none s.editor d hlt).2.2] at hx
      exact absurd hx (by simp)
  | some y =>
    rw [hy] at hx
    have hlt := hd.handedOut d y hy
    rcases h.drawn d y hy with hin | ⟨hout, htaken, hnone⟩
    · rw [hin]
      exact Or.inl hx
    · right
      have hmarker : x.marker = y.marker := call.marker_of_decorationAfter d hlt hx
      refine ⟨?_, hmarker ▸ htaken, ?_⟩
      · show (call.run s.editor).decorations.get? d = none
        rw [call.get?_decorations_run, hout]
        exact (call.after_none s.editor d hlt).2.2
      · show (call.run s.editor).markers.get? x.marker = none
        rw [call.get?_markers_run, hmarker, hnone]
        exact (call.after_none s.editor _ (h.taken _ htaken)).2.1

/-- A call of the host is entered in its account. -/
lemma Accounted.hostCall (h : s.Accounted a) (hr : s.Respects call) :
    (s.host fun e => call.run e).Accounted (a.enter call) where
  owners := h.owners
  retired := h.retired
  label := h.label
  made := h.made
  divided := h.divided_host hr
  kept := h.kept.run call
  next := (call.run_congr h.divided.text.symm h.divided.cursor.symm h.next).2.2
  taken := fun k hk => Nat.lt_of_lt_of_le (h.taken k hk) (s.editor.nextId_le_run call)
  numbered := h.numbered
  drawn := fun _ _ hx => h.drawn_host hx

/-- The account is complete in every state that the host and the foldings lead to. -/
theorem Shared.accounted (h : s.Shared a) : s.Accounted a := by
  induction h with
  | start text settings =>
    have hkept := Editor.kept_new text settings
    exact ⟨⟨by simp, by simp, by simp, by simp⟩, divided_alone hkept, hkept, rfl,
      fun _ hk => hk.elim, by simp, fun _ _ hx => Or.inl hx⟩
  | host _ hr ih => exact ih.hostCall hr
  | manage _ hm ih => exact ih.managed hm

/-! ## Ownership without leaks -/

/-- The tables of the foldings and of the editor between calls. -/
structure Owned (s : FoldedEditor) (a : Account) : Prop where
  /-- The owners are the foldings by their markers. -/
  owners : ∀ k id, s.owners.get? k = some id ↔ ∃ f, s.live.get? id = some f ∧ f.marker = k
  /-- No number is both live and retired. -/
  retired : ∀ id, s.live.contains id = true → s.retired.contains id = false
  /-- The markers are those of the host and one for each folding. -/
  markers : s.held.Shares HasMarker s.editor.markers a.editor.markers ∧
    ∀ id f, s.live.get? id = some f → ∃ m, s.editor.markers.get? f.marker = some m
  /-- The decorations are those of the host and one for each folding whose label is not hidden. -/
  decorations : s.held.Splits HasDecoration s.editor.decorations a.editor.decorations ∧
    ∀ id f, s.live.get? id = some f → f.label.isHidden = false →
      ∃ d x, f.label.decoration = some d ∧ s.editor.decorations.get? d = some x ∧
        x.marker = f.marker
  /-- Of the decorations of the host those alone can be missing that hung on a marker which the
  foldings have given up. -/
  missing : ∀ d x, a.editor.decorations.get? d = some x →
    s.editor.decorations.get? d = some x ∨ s.Missing a d x
  /-- The folds are those of the host, and others that belong to one folding each. -/
  folds : s.held.Shares HasFold s.editor.folds a.editor.folds

/-- Where the account is complete everything has its owner. -/
lemma Accounted.owned (h : s.Accounted a) : s.Owned a where
  owners := h.owners
  retired := by
    intro id hlive
    cases hf : s.live.get? id with
    | none => simp [Table.contains, hf] at hlive
    | some f => simp [Table.contains, h.retired id f hf]
  markers := by
    refine ⟨h.divided.markers.shares h.divided.hostMarkers, fun id f hf => ?_⟩
    exact (h.divided.placed id f.holding (holdings_of_live hf)).marker
  decorations := by
    refine ⟨h.divided.decorations, fun id f hf hshown => ?_⟩
    cases hd : f.label.decoration with
    | none => simp [Label.isHidden, hd] at hshown
    | some d =>
      obtain ⟨x, hx, hm⟩ := (h.divided.placed id f.holding (holdings_of_live hf)).decoration d hd
      exact ⟨d, x, rfl, hx, hm⟩
  missing := h.drawn
  folds := h.divided.folds.shares h.divided.hostFolds

/-- **Ownership.** In every state that the host and the foldings lead to, the tables of the foldings
agree, and markers, decorations and folds are those of the host and those of the foldings, but that
decorations of the host can be missing which hung on a marker of the foldings. Whatever is asked of
the foldings next, of a folding that is taken down nothing remains, and nothing else of others is
removed by it than what the host has drawn at the marker of the folding. -/
theorem Shared.no_leaks (h : s.Shared a) :
    s.Owned a ∧ ∀ s', s.Managed s' → s.Releases s' a.editor := by
  refine ⟨h.accounted.owned, fun s' hm => ?_⟩
  exact releases (hm.inOrder h.accounted.inOrder).course

/-- The host has drawn something at a marker of its own and at the marker of a folding, and changes
text inside the folding, which is then taken down. Of the two decorations the first one stays. -/
theorem Shared.no_leaks_edited :
    let drawn : Overlay := ⟨['!'], "host"⟩
    let mark : EditorCall := .createMarker ⟨⟨0, 0⟩, ⟨0, 1⟩⟩
    let start : FoldedEditor := { editor := { text := "xab\ncdy".toList } }
    let decorated := (start.host mark.run).host (EditorCall.decorate 1 drawn).run
    let folded := decorated.afterBatch [⟨1, ⟨⟨0, 1⟩, ⟨1, 2⟩⟩, ['p', 'q']⟩]
    let s := (folded.host (EditorCall.decorate 3 drawn).run).host
      (EditorCall.insert ⟨0, 2⟩ ['z']).run
    let account : Account := ⟨decorated.editor, fun _ => False⟩
    let a := ((account.keepPace folded.editor).enter (.decorate 3 drawn)).enter
      (.insert ⟨0, 2⟩ ['z'])
    s.Shared a ∧ s.live.keys = [1] ∧ a.editor.decorations.keys = [2, 7] ∧
      s.process.live.keys = [] ∧ s.process.editor.decorations.keys = [2] ∧
      s.Owned a ∧ s.Releases s.process a.editor := by
  intro drawn mark start decorated folded s account a
  have hstart : start.Shared ⟨start.editor, fun _ => False⟩ := .start _ _
  have hmarked : (start.host mark.run).Shared ⟨mark.run start.editor, fun _ => False⟩ :=
    .host hstart trivial
  have hdecorated : decorated.Shared account := .host hmarked trivial
  have hfolded : folded.Shared (account.keepPace folded.editor) := .manage hdecorated (.foldAll _)
  have hshared : s.Shared a := .host (.host hfolded trivial) trivial
  exact ⟨hshared, by decide, by decide, by decide, by decide, hshared.no_leaks.1,
    hshared.no_leaks.2 _ .process⟩

/-- In the same run no folding is left in the end, and the decorations are not those of the host: of
the two that it has made, and has not destroyed, the one at the marker of the folding is gone. -/
theorem Shared.drawing_lost_with_folding :
    let drawn : Overlay := ⟨['!'], "host"⟩
    let mark : EditorCall := .createMarker ⟨⟨0, 0⟩, ⟨0, 1⟩⟩
    let start : FoldedEditor := { editor := { text := "xab\ncdy".toList } }
    let decorated := (start.host mark.run).host (EditorCall.decorate 1 drawn).run
    let folded := decorated.afterBatch [⟨1, ⟨⟨0, 1⟩, ⟨1, 2⟩⟩, ['p', 'q']⟩]
    let s := ((folded.host (EditorCall.decorate 3 drawn).run).host
      (EditorCall.insert ⟨0, 2⟩ ['z']).run).process
    let account : Account := ⟨decorated.editor, fun _ => False⟩
    let a := (((account.keepPace folded.editor).enter (.decorate 3 drawn)).enter
      (.insert ⟨0, 2⟩ ['z'])).keepPace s.editor
    s.Shared a ∧ s.live.keys = [] ∧ a.editor.decorations.keys = [2, 7] ∧
      s.editor.decorations.keys = [2] ∧
      ¬s.held.Shares HasDecoration s.editor.decorations a.editor.decorations := by
  intro drawn mark start decorated folded s account a
  have hstart : start.Shared ⟨start.editor, fun _ => False⟩ := .start _ _
  have hmarked : (start.host mark.run).Shared ⟨mark.run start.editor, fun _ => False⟩ :=
    .host hstart trivial
  have hdecorated : decorated.Shared account := .host hmarked trivial
  have hfolded : folded.Shared (account.keepPace folded.editor) := .manage hdecorated (.foldAll _)
  have hshared : s.Shared a := .manage (.host (.host hfolded trivial) trivial) .process
  refine ⟨hshared, by decide, by decide, by decide, fun h => ?_⟩
  have hhost : a.editor.decorations.get? 7 = some ⟨3, drawn⟩ := by decide
  have hgone : s.editor.decorations.get? 7 = none := by decide
  exact absurd (hgone.symm.trans (h.includes 7 _ hhost)) (by simp)

end FoldedEditor

end TemplateFolding
