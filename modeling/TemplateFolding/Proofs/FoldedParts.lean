import TemplateFolding.Proofs.CoveredText
import TemplateFolding.Proofs.FoundDeclarations
import TemplateFolding.Proofs.Visibility

/-!
# The parts of foldings in the editor

In the editor a folding is a marker, the folds under it and a text drawn at it. `Faithful` says that
all folds and decorations belong to foldings, and that where the marker of a folding is valid, its
folds are those that make room for its text. Ranges of foldings with ascending numbers are ascending.

Edits keep this: they invalidate the marker of a folding or move it with all its folds.
-/

namespace TemplateFolding

open Text Point Range

/-- What a folding has in the editor. -/
structure Part where
  marker : MarkerId
  folds : List FoldId
  text : Text

/-- The text of a folding as a cover of its range. -/
def Part.cover (p : Part) (r : Range) : Cover := ⟨p.marker, r, p.text⟩

/-- The preview of a request that can be served is a cover of its range. -/
lemma FoldRequest.Ready.fits {request : FoldRequest} {t : Text} (h : request.Ready t)
    (k : MarkerId) (hwidth : request.preview.length ≤ (t.slice request.range).visualLength) :
    (⟨k, request.range, request.preview⟩ : Cover).Fits t where
  start := h.start
  stop := h.stop
  pos := h.pos
  width := hwidth
  lf := fun hmem => (h.oneLine _ hmem).1 rfl
  cr := fun hmem => (h.oneLine _ hmem).2 rfl

namespace Editor

/-- The folds and decorations of an editor are those of the given foldings. -/
structure Faithful (e : Editor) (parts : FoldingId → Option Part) : Prop where
  noLoneReturn : e.text.NoLoneReturn
  handedOut : ∀ id p, parts id = some p → p.marker < e.nextId ∧ ∀ k ∈ p.folds, k < e.nextId
  nodup : ∀ id p, parts id = some p → p.folds.Nodup
  apart : ∀ id p id' p', parts id = some p → parts id' = some p' → id ≠ id' →
    p.marker ≠ p'.marker ∧ p.folds.Disjoint p'.folds
  folds : ∀ k r, e.folds.get? k = some r → ∃ id p, parts id = some p ∧ k ∈ p.folds
  decorations : ∀ d x, e.decorations.get? d = some x → ∃ id p, parts id = some p ∧ p.marker = x.marker
  fits : ∀ id p m, parts id = some p → e.markers.get? p.marker = some m → m.valid = true →
    (p.cover m.range).Fits e.text ∧
      p.folds.map e.folds.get? = ((p.cover m.range).folds e.text).map some
  ordered : ∀ id p m id' p' m', parts id = some p → parts id' = some p' →
    e.markers.get? p.marker = some m → e.markers.get? p'.marker = some m' →
    m.valid = true → m'.valid = true → id < id' → m.range.stop ≤ m'.range.start

variable {e e' : Editor} {parts : FoldingId → Option Part} {id : FoldingId} {p : Part}

/-! ## Changes that keep the text, the folds and the markers -/

/-- An editor stays faithful when nothing changes but the cursor, the queues and what is drawn at
its own markers. -/
lemma Faithful.of_same (h : e.Faithful parts) (htext : e'.text = e.text) (hfolds : e'.folds = e.folds)
    (hmarkers : e'.markers = e.markers) (hnext : e.nextId ≤ e'.nextId)
    (hdecorations : ∀ d x, e'.decorations.get? d = some x →
      ∃ id p, parts id = some p ∧ p.marker = x.marker) : e'.Faithful parts where
  noLoneReturn := htext ▸ h.noLoneReturn
  handedOut := by
    intro id p hp
    obtain ⟨hmarker, hids⟩ := h.handedOut id p hp
    exact ⟨Nat.lt_of_lt_of_le hmarker hnext, fun k hk => Nat.lt_of_lt_of_le (hids k hk) hnext⟩
  nodup := h.nodup
  apart := h.apart
  folds := by
    rw [hfolds]
    exact h.folds
  decorations := hdecorations
  fits := by
    rw [hmarkers, hfolds, htext]
    exact h.fits
  ordered := by
    rw [hmarkers]
    exact h.ordered

/-- Drawing at the marker of a folding. -/
lemma Faithful.redraw (h : e.Faithful parts) (hp : parts id = some p) (hr : e.Redraws e' p.marker) :
    e'.Faithful parts := by
  refine h.of_same hr.text hr.folds hr.markers hr.nextId ?_
  intro d x hx
  by_cases hmarker : x.marker = p.marker
  · exact ⟨id, p, hp, hmarker.symm⟩
  · exact h.decorations d x ((hr.others d x hmarker).1 hx)

lemma Faithful.setCursor (h : e.Faithful parts) (q : Point) : (e.setCursor q).Faithful parts :=
  h.of_same rfl rfl rfl (Nat.le_refl _) h.decorations

/-! ## Edits -/

/-- An edit that leaves the marker of a folding valid moves the folding as a whole. -/
lemma Faithful.fits_splice (h : e.Faithful parts) {edit : Edit} {inserted : Text}
    (hr : edit.Replaces e.text inserted) (hi : inserted.NoLoneReturn) (hp : parts id = some p)
    {m : Marker} (hm : e.markers.get? p.marker = some m) (hv : m.valid = true)
    (hmiss : edit.hitsInside m.range = false) :
    (p.cover (edit.mapRange m.range)).Fits (e.splice edit inserted).text ∧
      p.folds.map (e.splice edit inserted).folds.get? =
        ((p.cover (edit.mapRange m.range)).folds (e.splice edit inserted).text).map some := by
  obtain ⟨hfits, hfolds⟩ := h.fits id p m hp hm hv
  obtain ⟨hfits', hmoved, hspared⟩ := hfits.moveTo hr h.noLoneReturn hi hmiss
  refine ⟨hfits', ?_⟩
  -- no fold of the part is hit, so each of them is mapped like the marker
  have hfolds' : (p.cover (edit.mapRange m.range)).folds (e.splice edit inserted).text =
      ((p.cover m.range).folds e.text).map edit.mapRange := hmoved
  have hget : ∀ k, (e.splice edit inserted).folds.get? k =
      ((e.folds.get? k).filter fun f => !edit.hitsInside f).map edit.mapRange := by
    intro k
    rw [splice, Table.get?_map, Table.get?_filter]
  calc p.folds.map (e.splice edit inserted).folds.get?
      = (p.folds.map e.folds.get?).map
          fun o => (o.filter fun f => !edit.hitsInside f).map edit.mapRange := by
        rw [List.map_map]
        exact List.map_congr_left fun k _ => hget k
    _ = ((p.cover m.range).folds e.text).map fun f => some (edit.mapRange f) := by
        rw [hfolds, List.map_map]
        refine List.map_congr_left fun f hf => ?_
        simp [hspared f hf]
    _ = ((p.cover (edit.mapRange m.range)).folds (e.splice edit inserted).text).map some := by
        rw [hfolds', List.map_map]
        rfl

/-- Replacing text without lone returns leaves the editor faithful. A part that the edit hits is no
longer valid, and the others have moved with their text. -/
lemma Faithful.splice (h : e.Faithful parts) {edit : Edit} {inserted : Text}
    (hr : edit.Replaces e.text inserted) (hi : inserted.NoLoneReturn) :
    (e.splice edit inserted).Faithful parts where
  noLoneReturn := hr.noLoneReturn h.noLoneReturn hi
  handedOut := h.handedOut
  nodup := h.nodup
  apart := h.apart
  folds := by
    intro k r hk
    simp only [Editor.splice, Table.get?_map, Table.get?_filter, Option.map_eq_some_iff,
      Option.filter_eq_some_iff] at hk
    obtain ⟨r₀, ⟨hr₀, -⟩, -⟩ := hk
    exact h.folds k r₀ hr₀
  decorations := h.decorations
  fits := by
    intro id p m hp hm hv
    obtain ⟨m₀, hm₀, hv₀, hmiss, hrange⟩ := valid_splice hm hv
    rw [hrange]
    exact h.fits_splice hr hi hp hm₀ hv₀ hmiss
  ordered := by
    intro id p m id' p' m' hp hp' hm hm' hv hv' hlt
    obtain ⟨m₀, hm₀, hv₀, hmiss, hrange⟩ := valid_splice hm hv
    obtain ⟨m₀', hm₀', hv₀', hmiss', hrange'⟩ := valid_splice hm' hv'
    rw [hrange, hrange']
    have hfits := (h.fits id p m₀ hp hm₀ hv₀).1
    exact hr.mapRange_apart hfits.lt hmiss hmiss'
      (h.ordered id p m₀ id' p' m₀' hp hp' hm₀ hm₀' hv₀ hv₀' hlt)

/-- A replacement by a text without lone carriage returns. -/
lemma Faithful.replace (h : e.Faithful parts) (r : Range) {inserted : Text}
    (hi : inserted.NoLoneReturn) : (e.replace r inserted).2.Faithful parts := by
  have hsplice := h.splice (e.replaces_editOf r inserted) hi
  rw [replace_eq]
  exact hsplice.of_same rfl rfl rfl (Nat.le_refl _) hsplice.decorations

/-! ## Taking a folding down -/

/-- Taking folds down takes these folds, and nothing else. -/
lemma destroyFolds_spec (ids : PartialFold) (e : Editor) :
    (ids.destroy e).text = e.text ∧ (ids.destroy e).nextId = e.nextId ∧
      (ids.destroy e).decorations = e.decorations ∧
      ∀ k, (ids.destroy e).folds.get? k = if k ∈ ids.folds then none else e.folds.get? k := by
  unfold PartialFold.destroy
  generalize ids.folds = ids
  induction ids generalizing e with
  | nil => simp
  | cons id ids ih =>
    obtain ⟨htext, hnext, hdecorations, hfolds⟩ := ih (e.destroyFold id)
    have hone : (e.destroyFold id).text = e.text ∧ (e.destroyFold id).nextId = e.nextId ∧
        (e.destroyFold id).decorations = e.decorations ∧
        ∀ k, (e.destroyFold id).folds.get? k = if k = id then none else e.folds.get? k := by
      unfold destroyFold
      split_ifs with hcontains
      · exact ⟨rfl, rfl, rfl, fun k => Table.get?_erase _ _ _⟩
      · refine ⟨rfl, rfl, rfl, fun k => ?_⟩
        split_ifs with hk
        · rw [hk]
          simpa [Table.contains] using hcontains
        · rfl
    obtain ⟨htext₁, hnext₁, hdecorations₁, hfolds₁⟩ := hone
    rw [List.foldl_cons, htext, hnext, hdecorations, htext₁, hnext₁, hdecorations₁]
    refine ⟨rfl, rfl, rfl, fun k => ?_⟩
    rw [hfolds, hfolds₁]
    by_cases hk : k = id <;> simp [hk]

/-- Taking down the folds and the marker of a folding leaves the others as they are. -/
lemma Faithful.destroy (h : e.Faithful parts) (hp : parts id = some p) (ids : PartialFold)
    (hids : ids.folds = p.folds) :
    ((ids.destroy e).destroyMarker p.marker).Faithful fun j => if j = id then none else parts j := by
  obtain ⟨htext, hnext, hdecorations, hfolds⟩ := destroyFolds_spec ids e
  have hmarkers : ∀ k, ((ids.destroy e).destroyMarker p.marker).markers.get? k =
      if k = p.marker then none else e.markers.get? k := by
    intro k
    rw [destroyMarker, Table.get?_erase, FoldedEditor.markers_destroyFolds]
  -- what is left of the foldings was there before
  have hleft : ∀ {j q}, (if j = id then none else parts j) = some q → j ≠ id ∧ parts j = some q := by
    intro j q hq
    split_ifs at hq with hj
    exact ⟨hj, hq⟩
  have hvalid : ∀ {j q m}, parts j = some q →
      ((ids.destroy e).destroyMarker p.marker).markers.get? q.marker = some m →
      e.markers.get? q.marker = some m := by
    intro j q m hq hm
    rw [hmarkers] at hm
    split_ifs at hm
    exact hm
  refine ⟨htext ▸ h.noLoneReturn, ?_, ?_, ?_, ?_, ?_, ?_, ?_⟩
  · intro j q hq
    show q.marker < (ids.destroy e).nextId ∧ ∀ k ∈ q.folds, k < (ids.destroy e).nextId
    rw [hnext]
    exact h.handedOut j q (hleft hq).2
  · intro j q hq
    exact h.nodup j q (hleft hq).2
  · intro j q j' q' hq hq' hne
    exact h.apart j q j' q' (hleft hq).2 (hleft hq').2 hne
  · intro k r hk
    have hk : (ids.destroy e).folds.get? k = some r := hk
    rw [hfolds, hids] at hk
    split_ifs at hk with hmem
    obtain ⟨j, q, hq, hkq⟩ := h.folds k r hk
    have hj : j ≠ id := by
      intro heq
      rw [heq, hp] at hq
      rw [← Option.some.inj hq] at hkq
      exact hmem hkq
    exact ⟨j, q, by rw [if_neg hj, hq], hkq⟩
  · intro d x hx
    simp only [destroyMarker, Table.get?_filter, Option.filter_eq_some_iff, hdecorations] at hx
    obtain ⟨j, q, hq, hmarker⟩ := h.decorations d x hx.1
    have hj : j ≠ id := by
      intro heq
      rw [heq, hp] at hq
      rw [← hmarker, ← Option.some.inj hq] at hx
      simp at hx
    exact ⟨j, q, by rw [if_neg hj, hq], hmarker⟩
  · intro j q m hq hm hv
    obtain ⟨hj, hq⟩ := hleft hq
    obtain ⟨hfits, hpieces⟩ := h.fits j q m hq (hvalid hq hm) hv
    show Cover.Fits (ids.destroy e).text _ ∧
      q.folds.map (ids.destroy e).folds.get? = (Cover.folds (ids.destroy e).text _).map some
    rw [htext]
    refine ⟨hfits, ?_⟩
    rw [← hpieces]
    refine List.map_congr_left fun k hk => ?_
    rw [hfolds, hids, if_neg fun hmem => (h.apart id p j q hp hq (Ne.symm hj)).2 hmem hk]
  · intro j q m j' q' m' hq hq' hm hm' hv hv' hlt
    obtain ⟨-, hq⟩ := hleft hq
    obtain ⟨-, hq'⟩ := hleft hq'
    exact h.ordered j q m j' q' m' hq hq' (hvalid hq hm) (hvalid hq' hm') hv hv' hlt

/-! ## Putting a folding in place -/

section Install

variable {request : FoldRequest}

/-- The part that a request puts in place. -/
def newPart (e : Editor) (request : FoldRequest) : Part :=
  ⟨e.nextId, (e.install request).1.folds, request.preview⟩

/-- What putting a folding in place changes in an editor. -/
lemma install_spec (hk : e.Kept) (h : request.Ready e.text)
    (hwidth : request.preview.length ≤ (e.text.slice request.range).visualLength) :
    (e.install request).2.2.text = e.text ∧
      (e.install request).2.2.markers = e.markers.insert e.nextId ⟨request.range, true⟩ ∧
      (e.install request).1.folds = List.range' (e.nextId + 1)
        (PartialFold.pieces e.text request.range request.preview.length).length ∧
      (e.install request).2.2.folds.entries = e.folds.entries ++ (e.install request).1.folds.zip
        (PartialFold.pieces e.text request.range request.preview.length) ∧
      ∀ d x, (e.install request).2.2.decorations.get? d = some x →
        x.marker = e.nextId ∨ e.decorations.get? d = some x := by
  have hclip : e.clipRange request.range = request.range :=
    clipRange_eq h.start h.stop (le_of_lt h.lt)
  have hmarker : (e.createMarker request.range).2.Kept := hk.run (.createMarker request.range)
  have hpieces : ∀ r ∈ PartialFold.pieces e.text request.range request.preview.length,
      (e.createMarker request.range).2.clipRange r = r := by
    intro r hr
    obtain ⟨hends, -, hlt, -⟩ := (h.fits e.nextId hwidth).folds r hr
    exact clipRange_eq (e := (e.createMarker request.range).2) hends.1 hends.2 (le_of_lt hlt)
  obtain ⟨hids, htext, hmarkers, hdecorations, hfolds⟩ :=
    PartialFold.foldEach_spec _ hmarker.folds hpieces
  unfold install
  rw [hclip]
  dsimp only
  refine ⟨htext, ?_, hids, ?_, ?_⟩
  · have hinsert : (e.createMarker request.range).2.markers =
        e.markers.insert e.nextId ⟨e.clipRange request.range, true⟩ := rfl
    rw [hclip] at hinsert
    exact hmarkers.trans hinsert
  · rw [hids]
    exact hfolds
  · intro d x hx
    rw [show (Label.create (PartialFold.foldEach (e.createMarker request.range).2 _).2 e.nextId
      request.preview).2.decorations = Table.insert _ _ _ from rfl, Table.get?_insert] at hx
    split_ifs at hx
    · left
      rw [← Option.some.inj hx]
    · right
      rw [hdecorations] at hx
      exact hx

/-- The ids of the new folds lead to the pieces of the new range. -/
lemma map_get?_install (hk : e.Kept) (h : request.Ready e.text)
    (hwidth : request.preview.length ≤ (e.text.slice request.range).visualLength) :
    (e.install request).1.folds.map (e.install request).2.2.folds.get? =
      (PartialFold.pieces e.text request.range request.preview.length).map some := by
  obtain ⟨-, -, hids, hentries, -⟩ := install_spec hk h hwidth
  have hlength : (e.install request).1.folds.length =
      (PartialFold.pieces e.text request.range request.preview.length).length := by
    rw [hids, List.length_range']
  generalize hpieces : PartialFold.pieces e.text request.range request.preview.length = pieces at *
  generalize (e.install request).1.folds = ids at *
  have hget : ∀ x ∈ ids.zip pieces, (e.install request).2.2.folds.get? x.1 = some x.2 := by
    intro x hx
    rw [← Table.mem_entries_iff, hentries]
    exact List.mem_append_right _ hx
  calc ids.map (e.install request).2.2.folds.get?
      = ((ids.zip pieces).map (·.1)).map (e.install request).2.2.folds.get? := by
        rw [List.map_fst_zip (Nat.le_of_eq hlength)]
    _ = (ids.zip pieces).map fun x => some x.2 := by
        rw [List.map_map]
        exact List.map_congr_left hget
    _ = ((ids.zip pieces).map (·.2)).map some := by rw [List.map_map]; rfl
    _ = pieces.map some := by rw [List.map_snd_zip (Nat.le_of_eq hlength.symm)]

/-- A fold that was there before is still there. -/
lemma get?_install_of_lt (hk : e.Kept) (h : request.Ready e.text)
    (hwidth : request.preview.length ≤ (e.text.slice request.range).visualLength) {k : FoldId}
    (hlt : k < e.nextId) : (e.install request).2.2.folds.get? k = e.folds.get? k := by
  obtain ⟨-, -, hids, hentries, -⟩ := install_spec hk h hwidth
  apply Option.ext
  intro r
  rw [← Table.mem_entries_iff, ← Table.mem_entries_iff, hentries, List.mem_append]
  constructor
  · rintro (hold | hnew)
    · exact hold
    · have hmem := (List.of_mem_zip hnew).1
      rw [hids, List.mem_range'_1] at hmem
      exact absurd hlt (Nat.lt_asymm hmem.1)
  · exact Or.inl

/-- A request that is put in place has a valid marker on the range it asks for. -/
lemma get?_install_nextId (hk : e.Kept) (hready : request.Ready e.text)
    (hwidth : request.preview.length ≤ (e.text.slice request.range).visualLength) :
    (e.install request).2.2.markers.get? e.nextId = some ⟨request.range, true⟩ := by
  obtain ⟨-, hmarkers, -⟩ := install_spec hk hready hwidth
  rw [hmarkers, Table.get?_insert_self]

/-- The folds of the new part have numbers that were not handed out before. -/
lemma lt_of_mem_newPart (hk : e.Kept) (hk' : (e.install request).2.2.Kept)
    (hready : request.Ready e.text)
    (hwidth : request.preview.length ≤ (e.text.slice request.range).visualLength) {k : FoldId}
    (hmem : k ∈ (e.newPart request).folds) :
    e.nextId < k ∧ k < (e.install request).2.2.nextId := by
  have hmem : k ∈ (e.install request).1.folds := hmem
  have hfold : (e.install request).2.2.folds.get? k ∈
      (e.install request).1.folds.map (e.install request).2.2.folds.get? :=
    List.mem_map_of_mem hmem
  rw [map_get?_install hk hready hwidth] at hfold
  obtain ⟨r, -, hr⟩ := List.mem_map.1 hfold
  obtain ⟨-, -, hids, -⟩ := install_spec hk hready hwidth
  rw [hids, List.mem_range'_1] at hmem
  exact ⟨by omega, hk'.folds k r hr.symm⟩

/-- The parts that are there already keep their markers. -/
lemma Faithful.get?_install (h : e.Faithful parts) (hk : e.Kept) (hready : request.Ready e.text)
    (hwidth : request.preview.length ≤ (e.text.slice request.range).visualLength)
    (hp : parts id = some p) :
    (e.install request).2.2.markers.get? p.marker = e.markers.get? p.marker := by
  obtain ⟨-, hmarkers, -⟩ := install_spec hk hready hwidth
  rw [hmarkers]
  exact Table.get?_insert_of_ne _ _ (Nat.ne_of_lt (h.handedOut id p hp).1)

/-- A folding that is put in place after the others joins them. -/
lemma Faithful.install (h : e.Faithful parts) (hk : e.Kept) (hk' : (e.install request).2.2.Kept)
    (hready : request.Ready e.text)
    (hwidth : request.preview.length ≤ (e.text.slice request.range).visualLength)
    (hnone : parts request.id = none)
    (hafter : ∀ id p m, parts id = some p → e.markers.get? p.marker = some m → m.valid = true →
      id < request.id ∧ m.range.stop ≤ request.range.start) :
    (e.install request).2.2.Faithful fun j =>
      if j = request.id then some (e.newPart request) else parts j := by
  obtain ⟨htext, hmarkers, hids, hentries, hdecorations⟩ := install_spec hk hready hwidth
  have hmarker := get?_install_nextId hk hready hwidth
  have hnext : e.nextId < (e.install request).2.2.nextId := hk'.markers _ _ hmarker
  have hfresh : ∀ k ∈ (e.newPart request).folds,
      e.nextId < k ∧ k < (e.install request).2.2.nextId :=
    fun k hmem => lt_of_mem_newPart hk hk' hready hwidth hmem
  have hnew : ∀ {j q}, parts j = some q →
      q.marker ≠ e.nextId ∧ ∀ k ∈ q.folds, k ∉ (e.newPart request).folds := by
    intro j q hq
    obtain ⟨hlt, hlts⟩ := h.handedOut j q hq
    exact ⟨Nat.ne_of_lt hlt, fun k hmem hmem' =>
      Nat.lt_asymm (hlts k hmem) (hfresh k hmem').1⟩
  have hkeep : ∀ {j q}, parts j = some q →
      (if j = request.id then some (e.newPart request) else parts j) = some q := by
    intro j q hq
    rw [if_neg, hq]
    intro hj
    rw [hj, hnone] at hq
    exact absurd hq (by simp)
  -- a part is the new one, or one of those before, which keep their markers and folds
  refine ⟨htext ▸ h.noLoneReturn, ?_, ?_, ?_, ?_, ?_, ?_, ?_⟩
  · intro j q hq
    rcases ite_eq_iff.1 hq with ⟨-, ⟨⟩⟩ | ⟨-, hq⟩
    · exact ⟨hnext, fun k hmem => (hfresh k hmem).2⟩
    · obtain ⟨hlt, hlts⟩ := h.handedOut j q hq
      exact ⟨Nat.lt_trans hlt hnext, fun k hmem => Nat.lt_trans (hlts k hmem) hnext⟩
  · intro j q hq
    rcases ite_eq_iff.1 hq with ⟨-, ⟨⟩⟩ | ⟨-, hq⟩
    · show (e.install request).1.folds.Nodup
      rw [hids]
      exact List.nodup_range'
    · exact h.nodup j q hq
  · intro j q j' q' hq hq' hne
    rcases ite_eq_iff.1 hq with ⟨hj, ⟨⟩⟩ | ⟨-, hq⟩
    · rcases ite_eq_iff.1 hq' with ⟨hj', -⟩ | ⟨-, hq'⟩
      · exact absurd (hj.trans hj'.symm) hne
      · exact ⟨(hnew hq').1.symm, fun k hmem hmem' => (hnew hq').2 k hmem' hmem⟩
    · rcases ite_eq_iff.1 hq' with ⟨-, ⟨⟩⟩ | ⟨-, hq'⟩
      · exact ⟨(hnew hq).1, fun k hmem hmem' => (hnew hq).2 k hmem hmem'⟩
      · exact h.apart j q j' q' hq hq' hne
  · intro k r hkr
    rw [← Table.mem_entries_iff, hentries, List.mem_append] at hkr
    rcases hkr with hkr | hkr
    · obtain ⟨j, q, hq, hmem⟩ := h.folds k r (Table.mem_entries_iff.1 hkr)
      exact ⟨j, q, hkeep hq, hmem⟩
    · exact ⟨request.id, e.newPart request, if_pos rfl, (List.of_mem_zip hkr).1⟩
  · intro d x hx
    rcases hdecorations d x hx with hx | hx
    · exact ⟨request.id, e.newPart request, if_pos rfl, hx.symm⟩
    · obtain ⟨j, q, hq, hmarker⟩ := h.decorations d x hx
      exact ⟨j, q, hkeep hq, hmarker⟩
  · -- the folds of the new part cover its range; those of the others have smaller numbers
    intro j q m hq hm hv
    rw [htext]
    rcases ite_eq_iff.1 hq with ⟨-, ⟨⟩⟩ | ⟨-, hq⟩
    · have hrange : m = ⟨request.range, true⟩ := Option.some.inj (hm.symm.trans hmarker)
      rw [hrange]
      exact ⟨hready.fits _ hwidth, map_get?_install hk hready hwidth⟩
    · rw [h.get?_install hk hready hwidth hq] at hm
      obtain ⟨hfits, hpieces⟩ := h.fits j q m hq hm hv
      refine ⟨hfits, ?_⟩
      rw [← hpieces]
      exact List.map_congr_left fun k hmem =>
        get?_install_of_lt hk hready hwidth ((h.handedOut j q hq).2 k hmem)
  · -- the new part has the greatest number and stands last in the text
    intro j q m j' q' m' hq hq' hm hm' hv hv' hlt
    rcases ite_eq_iff.1 hq with ⟨hj, ⟨⟩⟩ | ⟨-, hq⟩
    · rcases ite_eq_iff.1 hq' with ⟨hj', -⟩ | ⟨-, hq'⟩
      · rw [hj, hj'] at hlt
        exact absurd hlt (Nat.lt_irrefl _)
      · rw [h.get?_install hk hready hwidth hq'] at hm'
        rw [hj] at hlt
        exact absurd (hafter j' q' m' hq' hm' hv').1 (Nat.lt_asymm hlt)
    · rw [h.get?_install hk hready hwidth hq] at hm
      rcases ite_eq_iff.1 hq' with ⟨-, ⟨⟩⟩ | ⟨-, hq'⟩
      · have hrange : m' = ⟨request.range, true⟩ := Option.some.inj (hm'.symm.trans hmarker)
        rw [hrange]
        exact (hafter j q m hq hm hv).2
      · rw [h.get?_install hk hready hwidth hq'] at hm'
        exact h.ordered j q m j' q' m' hq hq' hm hm' hv hv' hlt

end Install

end Editor

end TemplateFolding
