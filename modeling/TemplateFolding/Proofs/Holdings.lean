import Mathlib.Logic.Function.Basic
import TemplateFolding.Proofs.FoldedParts

/-!
# What foldings hold in an editor

A folding holds a marker, some folds, and a decoration while its label is drawn. The rest of an
editor belongs to the host. `Divided` is this division, and `Deal` says what is done to an editor on
behalf of one folding: it may take numbers that are new and give up what it holds, and it leaves
what others hold alone. A decoration of the host that hangs on the marker of a folding goes with the
marker.
-/

namespace TemplateFolding

open Function

/-- What a folding holds in the editor. -/
structure Holding where
  marker : MarkerId
  folds : List FoldId
  decoration : Option DecorationId

/-- What is held by each folding. -/
abbrev Holdings := FoldingId → Option Holding

namespace Holding

def HasMarker (h : Holding) (k : MarkerId) : Prop := h.marker = k

def HasFold (h : Holding) (k : FoldId) : Prop := k ∈ h.folds

def HasDecoration (h : Holding) (d : DecorationId) : Prop := h.decoration = some d

/-- The marker is there, the folds have been made after it, and the decoration hangs on it. Folds
can be gone by an edit, or by the host. -/
structure PlacedIn (h : Holding) (e : Editor) : Prop where
  marker : ∃ m, e.markers.get? h.marker = some m
  folds : ∀ k ∈ h.folds, h.marker < k ∧ k < e.nextId
  decoration : ∀ d, h.decoration = some d → ∃ x, e.decorations.get? d = some x ∧ x.marker = h.marker

end Holding

open Holding

/-- A folding holds a number. -/
def Holdings.Owns (hs : Holdings) (has : Holding → Nat → Prop) (id : FoldingId) (k : Nat) : Prop :=
  ∃ h, hs id = some h ∧ has h k

/-- What no folding holds of a table is the host's, what a folding holds is not, and nothing is held
by two foldings. -/
structure Holdings.Splits {α : Type} (hs : Holdings) (has : Holding → Nat → Prop)
    (table host : Table α) : Prop where
  foreign : ∀ k v, table.get? k = some v → (∀ id, ¬hs.Owns has id k) → host.get? k = some v
  apart : ∀ k id, hs.Owns has id k → host.get? k = none
  single : ∀ k id id', hs.Owns has id k → hs.Owns has id' k → id = id'

/-- A table with all that another one has. -/
def Table.Includes {α : Type} (table part : Table α) : Prop :=
  ∀ k v, part.get? k = some v → table.get? k = some v

namespace Holdings

variable {α : Type} {hs hs' : Holdings} {has : Holding → Nat → Prop} {table table' host : Table α}
  {id : FoldingId} {k : Nat}

/-- What a folding owns depends on its own holding alone. -/
lemma owns_congr {j : FoldingId} (h : hs' j = hs j) : hs'.Owns has j k ↔ hs.Owns has j k := by
  rw [Owns, Owns, h]

/-- What a folding owns is in the holding that it has. -/
lemma Owns.of_eq {h : Holding} (ho : hs.Owns has id k) (hid : hs id = some h) : has h k := by
  obtain ⟨h', hid', hhas⟩ := ho
  rw [hid] at hid'
  rw [Option.some.inj hid']
  exact hhas

/-- A folding with a holding owns what is in that holding. -/
lemma owns_iff {h : Holding} (hid : hs id = some h) : hs.Owns has id k ↔ has h k :=
  ⟨fun ho => ho.of_eq hid, fun hk => ⟨h, hid, hk⟩⟩

/-- Without a holding a folding owns nothing. -/
lemma not_owns_of_none (h : hs id = none) : ¬hs.Owns has id k := by
  rintro ⟨h', hid, -⟩
  rw [h] at hid
  exact absurd hid (by simp)

/-- What the host has of a table is not held by a folding. -/
lemma Splits.not_owns {v : α} (h : hs.Splits has table host) (hk : host.get? k = some v) :
    ¬hs.Owns has id k := by
  intro ho
  rw [h.apart k id ho] at hk
  exact absurd hk (by simp)

/-- A folding takes a number that nobody has and gives up others. -/
lemma Splits.step (id : FoldingId) (h : hs.Splits has table host)
    (howns : ∀ j k, hs'.Owns has j k →
      hs.Owns has j k ∨ j = id ∧ host.get? k = none ∧ ∀ i, ¬hs.Owns has i k)
    (htable : ∀ k v, table'.get? k = some v → (∀ j, ¬hs'.Owns has j k) →
      table.get? k = some v ∧ ∀ j, ¬hs.Owns has j k) : hs'.Splits has table' host where
  foreign := by
    intro k v hk hfree
    obtain ⟨hk', hfree'⟩ := htable k v hk hfree
    exact h.foreign k v hk' hfree'
  apart := by
    intro k j ho
    rcases howns j k ho with hold | ⟨-, hnone, -⟩
    · exact h.apart k j hold
    · exact hnone
  single := by
    intro k j j' ho ho'
    rcases howns j k ho with hold | ⟨hj, -, hfree⟩ <;>
      rcases howns j' k ho' with hold' | ⟨hj', -, hfree'⟩
    · exact h.single k j j' hold hold'
    · exact absurd hold (hfree' j)
    · exact absurd hold' (hfree j')
    · rw [hj, hj']

end Holdings

/-! ## The division of an editor -/

/-- An editor and what the foldings hold in it. -/
structure Estate where
  editor : Editor
  holdings : Holdings

/-- The editor is divided between the foldings and a host that has what `host` has. Of the
decorations of the host some can be gone. -/
structure Divided (E : Estate) (host : Editor) : Prop where
  kept : E.editor.Kept
  text : E.editor.text = host.text
  cursor : E.editor.cursor = host.cursor
  folds : E.holdings.Splits HasFold E.editor.folds host.folds
  markers : E.holdings.Splits HasMarker E.editor.markers host.markers
  decorations : E.holdings.Splits HasDecoration E.editor.decorations host.decorations
  hostFolds : E.editor.folds.Includes host.folds
  hostMarkers : E.editor.markers.Includes host.markers
  handedOut : host.decorations.Below E.editor.nextId
  placed : ∀ id h, E.holdings id = some h → h.PlacedIn E.editor

namespace Divided

variable {E : Estate} {host : Editor} {id : FoldingId} {k : Nat}

/-- A marker that is owned exists. -/
lemma owns_marker (h : Divided E host) (ho : E.holdings.Owns HasMarker id k) :
    ∃ m, E.editor.markers.get? k = some m := by
  obtain ⟨held, hid, hk⟩ := ho
  rw [← hk]
  exact (h.placed id held hid).marker

/-- A fold that is owned has a number that has been handed out. -/
lemma owns_fold (h : Divided E host) (ho : E.holdings.Owns HasFold id k) : k < E.editor.nextId := by
  obtain ⟨held, hid, hk⟩ := ho
  exact ((h.placed id held hid).folds k hk).2

/-- A decoration that is owned exists, and hangs on a marker of the same owner. -/
lemma owns_decoration (h : Divided E host) (ho : E.holdings.Owns HasDecoration id k) :
    ∃ x, E.editor.decorations.get? k = some x ∧ E.holdings.Owns HasMarker id x.marker := by
  obtain ⟨held, hid, hk⟩ := ho
  obtain ⟨x, hx, hmarker⟩ := (h.placed id held hid).decoration k hk
  exact ⟨x, hx, held, hid, hmarker.symm⟩

/-- Numbers that foldings hold have been handed out. -/
lemma owns_marker_lt (h : Divided E host) (ho : E.holdings.Owns HasMarker id k) :
    k < E.editor.nextId := by
  obtain ⟨m, hm⟩ := h.owns_marker ho
  exact h.kept.markers k m hm

/-- A decoration that is owned has a number that has been handed out. -/
lemma owns_decoration_lt (h : Divided E host) (ho : E.holdings.Owns HasDecoration id k) :
    k < E.editor.nextId := by
  obtain ⟨x, hx, -⟩ := h.owns_decoration ho
  exact h.kept.decorations k x hx

end Divided

/-! ## Deals -/

/-- What is done to a table on behalf of one folding. Entries for which `lost` holds can go. -/
structure Handles {α : Type} (id : FoldingId) (E E' : Estate) (has : Holding → Nat → Prop)
    (table table' : Table α) (lost : Nat → α → Prop) : Prop where
  gains : ∀ k, E'.holdings.Owns has id k → E.holdings.Owns has id k ∨ k = E.editor.nextId
  leaves : ∀ k v, table'.get? k = some v → ¬E'.holdings.Owns has id k →
    table.get? k = some v ∧ ¬E.holdings.Owns has id k
  spares : ∀ k v, table.get? k = some v → table'.get? k = some v ∨ lost k v

/-- What is done to an editor on behalf of one folding. -/
structure Deal (id : FoldingId) (E E' : Estate) : Prop where
  kept : E'.editor.Kept
  text : E'.editor.text = E.editor.text
  cursor : E'.editor.cursor = E.editor.cursor
  next : E.editor.nextId ≤ E'.editor.nextId
  others : ∀ j, j ≠ id → E'.holdings j = E.holdings j
  still : ∀ h h', E.holdings id = some h → E'.holdings id = some h' → h'.marker = h.marker
  folds : Handles id E E' HasFold E.editor.folds E'.editor.folds fun k _ =>
    E.holdings.Owns HasFold id k ∧ E'.holdings id = none
  markers : Handles id E E' HasMarker E.editor.markers E'.editor.markers fun k _ =>
    E.holdings.Owns HasMarker id k ∧ E'.holdings id = none
  decorations : Handles id E E' HasDecoration E.editor.decorations E'.editor.decorations fun d x =>
    E.holdings.Owns HasDecoration id d ∨
      E.holdings.Owns HasMarker id x.marker ∧ E'.holdings id = none
  placed : (∀ h, E.holdings id = some h → h.PlacedIn E.editor) →
    ∀ h, E'.holdings id = some h → h.PlacedIn E'.editor
  /-- Nothing hangs on the marker of a folding that is taken down. -/
  cleared : ∀ h, E.holdings id = some h → E'.holdings id = none →
    ∀ d x, E'.editor.decorations.get? d = some x → x.marker ≠ h.marker

section Splits

variable {α : Type} {id : FoldingId} {E E' : Estate} {has : Holding → Nat → Prop}
  {table table' host : Table α} {lost : Nat → α → Prop}

/-- A table of which nothing is taken and nothing given up. -/
lemma Handles.same (howns : ∀ k, E'.holdings.Owns has id k ↔ E.holdings.Owns has id k)
    (htable : table' = table) : Handles id E E' has table table' lost where
  gains := fun k ho => Or.inl ((howns k).1 ho)
  leaves := fun k _ hk ho => ⟨htable ▸ hk, fun hold => ho ((howns k).2 hold)⟩
  spares := fun _ _ hk => Or.inl (htable ▸ hk)

/-- A table stays divided, as new numbers are neither the host's nor held by anyone. -/
lemma Handles.splits (h : Handles id E E' has table table' lost)
    (hothers : ∀ j, j ≠ id → E'.holdings j = E.holdings j) (hs : E.holdings.Splits has table host)
    (hhost : host.Below E.editor.nextId)
    (hlt : ∀ j k, E.holdings.Owns has j k → k < E.editor.nextId) :
    E'.holdings.Splits has table' host := by
  refine Holdings.Splits.step id hs ?_ ?_
  · intro j k ho
    by_cases hj : j = id
    · rw [hj] at ho ⊢
      rcases h.gains k ho with hold | hnew
      · exact Or.inl hold
      · right
        refine ⟨rfl, hnew ▸ hhost.get?_eq_none, fun i hi => ?_⟩
        exact absurd (hlt i k hi) (by omega)
    · exact Or.inl ((Holdings.owns_congr (hothers j hj)).1 ho)
  · intro k v hk hfree
    obtain ⟨hk', hid⟩ := h.leaves k v hk (hfree id)
    refine ⟨hk', fun j hj => ?_⟩
    by_cases hji : j = id
    · exact hid (hji ▸ hj)
    · exact hfree j ((Holdings.owns_congr (hothers j hji)).2 hj)

end Splits

namespace Deal

variable {id : FoldingId} {E E' : Estate} {host : Editor}

/-- A folding that is not concerned keeps what it holds. -/
lemma placed_other (h : Deal id E E') (hd : Divided E host) {j : FoldingId} (hj : j ≠ id)
    {held : Holding} (hheld : E.holdings j = some held) : held.PlacedIn E'.editor := by
  have hplaced := hd.placed j held hheld
  have hmarker : ¬E.holdings.Owns HasMarker id held.marker := by
    intro ho
    exact hj (hd.markers.single _ j id ⟨held, hheld, rfl⟩ ho)
  refine ⟨?_, ?_, ?_⟩
  · obtain ⟨m, hm⟩ := hplaced.marker
    rcases h.markers.spares _ m hm with hm' | ⟨ho, -⟩
    · exact ⟨m, hm'⟩
    · exact absurd ho hmarker
  · intro k hk
    have hlt := hplaced.folds k hk
    exact ⟨hlt.1, Nat.lt_of_lt_of_le hlt.2 h.next⟩
  · intro d hdec
    obtain ⟨x, hx, hxm⟩ := hplaced.decoration d hdec
    rcases h.decorations.spares d x hx with hx' | ho | ⟨ho, -⟩
    · exact ⟨x, hx', hxm⟩
    · exact absurd (hd.decorations.single d j id ⟨held, hheld, hdec⟩ ho) hj
    · rw [hxm] at ho
      exact absurd ho hmarker

/-- A deal keeps the division. -/
theorem divided (h : Deal id E E') (hd : Divided E host) : Divided E' host where
  kept := h.kept
  text := h.text.trans hd.text
  cursor := h.cursor.trans hd.cursor
  folds := by
    refine h.folds.splits h.others hd.folds ?_ fun j k ho => hd.owns_fold ho
    exact fun k v hk => hd.kept.folds k v (hd.hostFolds k v hk)
  markers := by
    refine h.markers.splits h.others hd.markers ?_ fun j k ho => hd.owns_marker_lt ho
    exact fun k v hk => hd.kept.markers k v (hd.hostMarkers k v hk)
  decorations :=
    h.decorations.splits h.others hd.decorations hd.handedOut fun j k ho => hd.owns_decoration_lt ho
  hostFolds := by
    intro k v hk
    rcases h.folds.spares k v (hd.hostFolds k v hk) with hk' | ⟨ho, -⟩
    · exact hk'
    · exact absurd ho (hd.folds.not_owns hk)
  hostMarkers := by
    intro k v hk
    rcases h.markers.spares k v (hd.hostMarkers k v hk) with hk' | ⟨ho, -⟩
    · exact hk'
    · exact absurd ho (hd.markers.not_owns hk)
  handedOut := hd.handedOut.mono h.next
  placed := by
    intro j held hheld
    by_cases hj : j = id
    · rw [hj] at hheld
      exact h.placed (fun h' => hd.placed id h') held hheld
    · rw [h.others j hj] at hheld
      exact h.placed_other hd hj hheld

end Deal

/-! ## What happens over a run of deals -/

/-- What has become of an estate. Old numbers have not changed hands: a folding that has an old
marker had it before, a fold that is gone was held by a folding that is gone, and a decoration that
is gone was held by a folding or hung on the marker of one. A decoration that still hangs on the
marker of a folding hangs on one that a folding has now. -/
structure Later (E₀ E : Estate) : Prop where
  next : E₀.editor.nextId ≤ E.editor.nextId
  markers : ∀ k, k < E₀.editor.nextId → E₀.editor.markers.get? k = none →
    E.editor.markers.get? k = none
  drawn : ∀ d x, d < E₀.editor.nextId → E.editor.decorations.get? d = some x →
    ∃ x₀, E₀.editor.decorations.get? d = some x₀ ∧ x₀.marker = x.marker
  holdings : ∀ id h, E.holdings id = some h → h.marker < E₀.editor.nextId →
    ∃ h₀, E₀.holdings id = some h₀ ∧ h₀.marker = h.marker ∧
      ∀ k ∈ h.folds, k < E₀.editor.nextId → k ∈ h₀.folds
  labels : ∀ id d, E.holdings.Owns HasDecoration id d → d < E₀.editor.nextId →
    E₀.holdings.Owns HasDecoration id d
  folds : ∀ k r, E₀.editor.folds.get? k = some r → E.editor.folds.get? k = some r ∨
    ∃ id h, E₀.holdings id = some h ∧ k ∈ h.folds ∧ ∀ j, ¬E.holdings.Owns HasMarker j h.marker
  decorations : ∀ d x, E₀.editor.decorations.get? d = some x →
    (∃ x', E.editor.decorations.get? d = some x') ∨ (∃ id, E₀.holdings.Owns HasDecoration id d) ∨
      x.marker < E.editor.nextId ∧ E.editor.markers.get? x.marker = none ∧
        ((∃ id, E₀.holdings.Owns HasMarker id x.marker) ∨ E₀.editor.nextId ≤ x.marker)
  hung : ∀ d x, d < E₀.editor.nextId → E.editor.decorations.get? d = some x →
    (∃ id, E₀.holdings.Owns HasMarker id x.marker) → ∃ id, E.holdings.Owns HasMarker id x.marker

namespace Later

variable {E₀ E E' : Estate} {id : FoldingId} {host : Editor}

lemma refl (E : Estate) : Later E E where
  next := Nat.le_refl _
  markers := fun _ _ hk => hk
  drawn := fun _ x _ hx => ⟨x, hx, rfl⟩
  holdings := fun _ h hid _ => ⟨h, hid, rfl, fun _ hk _ => hk⟩
  labels := fun _ _ ho _ => ho
  folds := fun _ _ hk => Or.inl hk
  decorations := fun _ x hx => Or.inl ⟨x, hx⟩
  hung := fun _ _ _ _ ho => ho

/-- An old number is not the next one. -/
lemma ne_next (h : Later E₀ E) {k : Nat} (hk : k < E₀.editor.nextId) : k ≠ E.editor.nextId :=
  Nat.ne_of_lt (Nat.lt_of_lt_of_le hk h.next)

/-- A folding with an old marker after a deal had it before, with the same old folds. -/
lemma holdings_deal (h : Later E₀ E) (hdeal : Deal id E E') {j : FoldingId} {held : Holding}
    (hheld : E'.holdings j = some held) (hlt : held.marker < E₀.editor.nextId) :
    ∃ h₀, E₀.holdings j = some h₀ ∧ h₀.marker = held.marker ∧
      ∀ k ∈ held.folds, k < E₀.editor.nextId → k ∈ h₀.folds := by
  by_cases hj : j = id
  · subst hj
    rcases hdeal.markers.gains held.marker ⟨held, hheld, rfl⟩ with ⟨old, hold, hmarker⟩ | hnew
    · have hmarker : old.marker = held.marker := hmarker
      obtain ⟨h₀, hid₀, hm₀, hfolds₀⟩ := h.holdings j old hold (hmarker ▸ hlt)
      refine ⟨h₀, hid₀, hm₀.trans hmarker, fun k hk hk₀ => ?_⟩
      rcases hdeal.folds.gains k ⟨held, hheld, hk⟩ with ho | hnew
      · exact hfolds₀ k (ho.of_eq hold) hk₀
      · exact absurd hnew (h.ne_next hk₀)
    · exact absurd hnew (h.ne_next hlt)
  · rw [hdeal.others j hj] at hheld
    exact h.holdings j held hheld hlt

/-- A marker that no folding has is not taken again. -/
lemma free_deal (h : Later E₀ E) (hdeal : Deal id E E') {k : MarkerId} (hk : k < E₀.editor.nextId)
    (hfree : ∀ j, ¬E.holdings.Owns HasMarker j k) (j : FoldingId) :
    ¬E'.holdings.Owns HasMarker j k := by
  intro ho
  by_cases hj : j = id
  · subst hj
    rcases hdeal.markers.gains k ho with hold | hnew
    · exact hfree j hold
    · exact absurd hnew (h.ne_next hk)
  · exact hfree j ((Holdings.owns_congr (hdeal.others j hj)).1 ho)

/-- No deal brings back a marker whose number has been handed out. -/
lemma markers_deal (hdeal : Deal id E E') (hd : Divided E host) {k : MarkerId}
    (hk : k < E.editor.nextId) (hnone : E.editor.markers.get? k = none) :
    E'.editor.markers.get? k = none := by
  cases hm : E'.editor.markers.get? k with
  | none => rfl
  | some m =>
    by_cases ho : E'.holdings.Owns HasMarker id k
    · rcases hdeal.markers.gains k ho with hold | hnew
      · obtain ⟨m', hm'⟩ := hd.owns_marker hold
        rw [hnone] at hm'
        exact absurd hm' (by simp)
      · exact absurd hnew (Nat.ne_of_lt hk)
    · rw [(hdeal.markers.leaves k m hm ho).1] at hnone
      exact absurd hnone (by simp)

/-- A decoration with an old number hangs where it hung. -/
lemma drawn_deal (hdeal : Deal id E E') (hd : Divided E host) {d : DecorationId} {x : Decoration}
    (hlt : d < E.editor.nextId) (hx : E'.editor.decorations.get? d = some x) :
    ∃ x₀, E.editor.decorations.get? d = some x₀ ∧ x₀.marker = x.marker := by
  by_cases ho : E'.holdings.Owns HasDecoration id d
  · rcases hdeal.decorations.gains d ho with ⟨old, hold, hdec⟩ | hnew
    · obtain ⟨held, hheld, hdec'⟩ := ho
      obtain ⟨x₀, hx₀, hm₀⟩ := (hd.placed id old hold).decoration d hdec
      obtain ⟨x', hx', hm'⟩ :=
        (hdeal.placed (fun h' => hd.placed id h') held hheld).decoration d hdec'
      rw [hx] at hx'
      refine ⟨x₀, hx₀, ?_⟩
      rw [hm₀, Option.some.inj hx', hm', hdeal.still old held hold hheld]
    · exact absurd hnew (Nat.ne_of_lt hlt)
  · exact ⟨x, (hdeal.decorations.leaves d x hx ho).1, rfl⟩

/-- A fold that goes in a deal was held by a folding that is taken down. The fold is older than the
run, and its folding is older still. -/
lemma folds_deal (h : Later E₀ E) (hd₀ : Divided E₀ host) (hd : Divided E host)
    (hdeal : Deal id E E') {k : FoldId} {r : Range} (hk : E₀.editor.folds.get? k = some r)
    (hmid : E.editor.folds.get? k = some r) :
    E'.editor.folds.get? k = some r ∨
      ∃ id h, E₀.holdings id = some h ∧ k ∈ h.folds ∧
        ∀ j, ¬E'.holdings.Owns HasMarker j h.marker := by
  have hlt₀ := hd₀.kept.folds k r hk
  rcases hdeal.folds.spares k r hmid with hend | ⟨⟨held, hheld, hkf⟩, hgone⟩
  · exact Or.inl hend
  · right
    have hkm := ((hd.placed id held hheld).folds k hkf).1
    have hlt : held.marker < E₀.editor.nextId := Nat.lt_trans hkm hlt₀
    obtain ⟨h₀, hid₀, hm₀, hfolds₀⟩ := h.holdings id held hheld hlt
    refine ⟨id, h₀, hid₀, hfolds₀ k hkf hlt₀, fun j ho => ?_⟩
    rw [hm₀] at ho
    by_cases hj : j = id
    · rw [hj] at ho
      exact Holdings.not_owns_of_none hgone ho
    · have hold := (Holdings.owns_congr (hdeal.others j hj)).1 ho
      exact hj (hd.markers.single _ j id hold ⟨held, hheld, rfl⟩)

/-- A marker that is given up in a deal is gone, and it was there at the start or is newer. -/
lemma markers_given_up (h : Later E₀ E) (hd : Divided E host) (hdeal : Deal id E E') {k : MarkerId}
    (ho : E.holdings.Owns HasMarker id k) (hgone : E'.holdings id = none) :
    k < E'.editor.nextId ∧ E'.editor.markers.get? k = none ∧
      ((∃ id, E₀.holdings.Owns HasMarker id k) ∨ E₀.editor.nextId ≤ k) := by
  refine ⟨Nat.lt_of_lt_of_le (hd.owns_marker_lt ho) hdeal.next, ?_, ?_⟩
  · cases hm : E'.editor.markers.get? k with
    | none => rfl
    | some m =>
      exact absurd ho (hdeal.markers.leaves _ m hm (Holdings.not_owns_of_none hgone)).2
  · by_cases hold : k < E₀.editor.nextId
    · obtain ⟨held, hheld, hhm⟩ := ho
      have hhm : held.marker = k := hhm
      obtain ⟨h₀, hid₀, hm₀, -⟩ := h.holdings id held hheld (hhm ▸ hold)
      exact Or.inl ⟨id, h₀, hid₀, hm₀.trans hhm⟩
    · exact Or.inr (Nat.le_of_not_lt hold)

/-- What hung on the marker of a folding hangs there still, unless the folding is taken down. -/
lemma hung_deal (hdeal : Deal id E E') {d : DecorationId} {x : Decoration}
    (hx : E'.editor.decorations.get? d = some x) {j : FoldingId}
    (ho : E.holdings.Owns HasMarker j x.marker) : E'.holdings.Owns HasMarker j x.marker := by
  by_cases hj : j = id
  · subst hj
    obtain ⟨held, hheld, hmarker : held.marker = x.marker⟩ := ho
    cases hheld' : E'.holdings j with
    | none => exact absurd hmarker.symm (hdeal.cleared held hheld hheld' d x hx)
    | some held' => exact ⟨held', hheld', (hdeal.still held held' hheld hheld').trans hmarker⟩
  · exact (Holdings.owns_congr (hdeal.others j hj)).2 ho

/-- One more deal. -/
theorem step (h : Later E₀ E) (hd₀ : Divided E₀ host) (hd : Divided E host) (hdeal : Deal id E E') :
    Later E₀ E' where
  next := Nat.le_trans h.next hdeal.next
  markers := by
    intro k hk hnone
    exact markers_deal hdeal hd (Nat.lt_of_lt_of_le hk h.next) (h.markers k hk hnone)
  drawn := by
    intro d x hlt hx
    obtain ⟨x₁, hx₁, hm₁⟩ := drawn_deal hdeal hd (Nat.lt_of_lt_of_le hlt h.next) hx
    obtain ⟨x₀, hx₀, hm₀⟩ := h.drawn d x₁ hlt hx₁
    exact ⟨x₀, hx₀, hm₀.trans hm₁⟩
  holdings := fun j held hheld hlt => h.holdings_deal hdeal hheld hlt
  labels := by
    intro j d ho hlt
    refine h.labels j d ?_ hlt
    by_cases hj : j = id
    · subst hj
      rcases hdeal.decorations.gains d ho with hold | hnew
      · exact hold
      · exact absurd hnew (h.ne_next hlt)
    · exact (Holdings.owns_congr (hdeal.others j hj)).1 ho
  folds := by
    intro k r hk
    rcases h.folds k r hk with hmid | ⟨j, h₀, hid₀, hk₀, hfree⟩
    · exact h.folds_deal hd₀ hd hdeal hk hmid
    · right
      refine ⟨j, h₀, hid₀, hk₀, h.free_deal hdeal ?_ hfree⟩
      exact hd₀.owns_marker_lt ⟨h₀, hid₀, rfl⟩
  decorations := by
    intro d x hx
    have hlt₀ := hd₀.kept.decorations d x hx
    rcases h.decorations d x hx with ⟨x₁, hx₁⟩ | howned | ⟨hlt, hnone, hwhose⟩
    · obtain ⟨x₀, hx₀, hm⟩ := h.drawn d x₁ hlt₀ hx₁
      rw [hx] at hx₀
      have hmarker : x.marker = x₁.marker := by rw [Option.some.inj hx₀, hm]
      rcases hdeal.decorations.spares d x₁ hx₁ with hend | ho | ⟨ho, hgone⟩
      · exact Or.inl ⟨x₁, hend⟩
      · exact Or.inr (Or.inl ⟨id, h.labels id d ho hlt₀⟩)
      · -- it goes with the marker of the folding that is taken down
        rw [hmarker]
        exact Or.inr (Or.inr (h.markers_given_up hd hdeal ho hgone))
    · exact Or.inr (Or.inl howned)
    · right; right
      exact ⟨Nat.lt_of_lt_of_le hlt hdeal.next, markers_deal hdeal hd hlt hnone, hwhose⟩
  hung := by
    intro d x hlt hx hwhose
    obtain ⟨x₁, hx₁, hm₁⟩ := drawn_deal hdeal hd (Nat.lt_of_lt_of_le hlt h.next) hx
    obtain ⟨j, ho⟩ := h.hung d x₁ hlt hx₁ (hm₁ ▸ hwhose)
    exact ⟨j, hung_deal hdeal hx (hm₁ ▸ ho)⟩

end Later

/-- The estate is divided, and it has become what a run of deals can make of `E₀`. -/
structure Course (host : Editor) (E₀ E : Estate) : Prop where
  start : Divided E₀ host
  divided : Divided E host
  later : Later E₀ E

namespace Course

variable {E₀ E E' : Estate} {host : Editor} {id : FoldingId}

lemma refl (h : Divided E host) : Course host E E :=
  ⟨h, h, Later.refl E⟩

/-- A course goes on with one more deal. -/
lemma deal (h : Course host E₀ E) (hdeal : Deal id E E') : Course host E₀ E' :=
  ⟨h.start, hdeal.divided h.divided, h.later.step h.start h.divided hdeal⟩

end Course

/-! ## Kinds of deals -/

/-- The estate in which the editor and the holding of one folding are new. -/
def Estate.set (E : Estate) (e : Editor) (id : FoldingId) (held : Option Holding) : Estate :=
  ⟨e, update E.holdings id held⟩

namespace Deal

variable {E : Estate} {e : Editor} {id : FoldingId} {held : Holding}

/-- Nothing that is divided changes. -/
lemma aside (id : FoldingId) (hkept : e.Kept) (htext : e.text = E.editor.text)
    (hcursor : e.cursor = E.editor.cursor) (hfolds : e.folds = E.editor.folds)
    (hmarkers : e.markers = E.editor.markers) (hdecorations : e.decorations = E.editor.decorations)
    (hnext : e.nextId = E.editor.nextId) : Deal id E ⟨e, E.holdings⟩ where
  kept := hkept
  text := htext
  cursor := hcursor
  next := Nat.le_of_eq hnext.symm
  others := fun _ _ => rfl
  still := by
    intro h h' hid hid'
    rw [Option.some.inj (hid.symm.trans hid')]
  folds := .same (fun _ => Iff.rfl) hfolds
  markers := .same (fun _ => Iff.rfl) hmarkers
  decorations := .same (fun _ => Iff.rfl) hdecorations
  placed := by
    intro hplaced h hid
    obtain ⟨hmarker, hheld, hdrawn⟩ := hplaced h hid
    refine ⟨?_, ?_, ?_⟩
    · rw [hmarkers]
      exact hmarker
    · rw [hnext]
      exact hheld
    · rw [hdecorations]
      exact hdrawn
  cleared := by
    intro h hid hnone
    exact absurd (hid.symm.trans hnone) (by simp)

/-- The decoration of a folding changes and nothing else. -/
lemma redecorate {drawn : Option DecorationId} (hid : E.holdings id = some held)
    (hkept : e.Kept) (htext : e.text = E.editor.text)
    (hcursor : e.cursor = E.editor.cursor) (hfolds : e.folds = E.editor.folds)
    (hmarkers : e.markers = E.editor.markers) (hnext : E.editor.nextId ≤ e.nextId)
    (hgains : ∀ d, drawn = some d → held.decoration = some d ∨ d = E.editor.nextId)
    (hleaves : ∀ d x, e.decorations.get? d = some x → drawn ≠ some d →
      E.editor.decorations.get? d = some x ∧ held.decoration ≠ some d)
    (hspares : ∀ d x, E.editor.decorations.get? d = some x →
      e.decorations.get? d = some x ∨ held.decoration = some d)
    (hplaced : held.PlacedIn E.editor → ∀ d, drawn = some d →
      ∃ x, e.decorations.get? d = some x ∧ x.marker = held.marker) :
    Deal id E (E.set e id (some { held with decoration := drawn })) := by
  have hnew : (E.set e id (some { held with decoration := drawn })).holdings id =
      some { held with decoration := drawn } := update_self ..
  have howns : ∀ {has k}, E.holdings.Owns has id k ↔ has held k := Holdings.owns_iff hid
  have howns' : ∀ {has k},
      (E.set e id (some { held with decoration := drawn })).holdings.Owns has id k ↔
        has { held with decoration := drawn } k := Holdings.owns_iff hnew
  refine ⟨hkept, htext, hcursor, hnext, fun j hj => update_of_ne hj .., ?_, ?_, ?_, ?_, ?_,
    fun _ _ hnone => absurd (hnew.symm.trans hnone) (by simp)⟩
  · intro h h' hh hh'
    rw [hid] at hh
    rw [hnew] at hh'
    rw [← Option.some.inj hh, ← Option.some.inj hh']
  · refine .same (fun k => ?_) hfolds
    rw [howns, howns']
    exact Iff.rfl
  · refine .same (fun k => ?_) hmarkers
    rw [howns, howns']
    exact Iff.rfl
  · refine ⟨fun d ho => ?_, fun d x hx ho => ?_, fun d x hx => ?_⟩
    · rcases hgains d (howns'.1 ho) with hold | hnext
      · exact Or.inl (howns.2 hold)
      · exact Or.inr hnext
    · obtain ⟨hx', hne⟩ := hleaves d x hx fun hd => ho (howns'.2 hd)
      exact ⟨hx', fun hold => hne (howns.1 hold)⟩
    · rcases hspares d x hx with hx' | hold
      · exact Or.inl hx'
      · exact Or.inr (Or.inl (howns.2 hold))
  · intro hall h hh
    rw [hnew] at hh
    rw [← Option.some.inj hh]
    have hold := hall held hid
    refine ⟨?_, fun k hk => ?_, hplaced hold⟩
    · show ∃ m, e.markers.get? held.marker = some m
      rw [hmarkers]
      exact hold.marker
    · exact ⟨(hold.folds k hk).1, Nat.lt_of_lt_of_le (hold.folds k hk).2 hnext⟩

/-- Nothing changes at all. -/
lemma unchanged (hk : E.editor.Kept) (hid : E.holdings id = some held) :
    Deal id E (E.set E.editor id (some held)) := by
  have hsame : E.set E.editor id (some held) = E := by
    rw [Estate.set, ← hid, update_eq_self]
  rw [hsame]
  exact aside id hk rfl rfl rfl rfl rfl rfl

/-- A folding that has drawn nothing draws an overlay at its marker. -/
lemma decorate (hk : E.editor.Kept) (hid : E.holdings id = some held)
    (hnone : held.decoration = none) (overlay : Overlay) :
    Deal id E (E.set (E.editor.decorate held.marker overlay).2 id
      (some { held with decoration := some E.editor.nextId })) := by
  have hget : ∀ d, d ≠ E.editor.nextId →
      (E.editor.decorate held.marker overlay).2.decorations.get? d = E.editor.decorations.get? d :=
    fun d hd => Table.get?_insert_of_ne _ _ hd
  refine redecorate hid (hk.run (.decorate held.marker overlay)) rfl rfl rfl rfl
    (Nat.le_succ _) ?_ ?_ ?_ ?_
  · exact fun d hd => Or.inr (Option.some.inj hd).symm
  · intro d x hx hne
    have hd : d ≠ E.editor.nextId := fun heq => hne (by rw [heq])
    rw [hget d hd] at hx
    exact ⟨hx, by simp [hnone]⟩
  · intro d x hx
    left
    rw [hget d (Nat.ne_of_lt (hk.decorations d x hx)), hx]
  · intro _ d hd
    rw [← Option.some.inj hd]
    exact ⟨_, Table.get?_insert_self .., rfl⟩

/-- A folding draws its label, if it is hidden. -/
lemma draw {l : Label} (hk : E.editor.Kept) (hid : E.holdings id = some held)
    (hmarker : l.marker = held.marker) (hdrawn : l.decoration = held.decoration) :
    Deal id E (E.set (l.draw E.editor).2 id
      (some { held with decoration := (l.draw E.editor).1.decoration })) := by
  unfold Label.draw
  cases hl : l.decoration with
  | some d =>
    show Deal id E (E.set E.editor id (some { held with decoration := l.decoration }))
    rw [hdrawn]
    exact unchanged hk hid
  | none =>
    rw [hl] at hdrawn
    show Deal id E (E.set (E.editor.decorate l.marker l.overlay).2 id
      (some { held with decoration := some E.editor.nextId }))
    rw [hmarker]
    exact decorate hk hid hdrawn.symm l.overlay

/-- A folding hides its label, if it is drawn. -/
lemma hide {l : Label} (hk : E.editor.Kept) (hid : E.holdings id = some held)
    (hdrawn : l.decoration = held.decoration) :
    Deal id E (E.set (l.hide E.editor).2 id
      (some { held with decoration := (l.hide E.editor).1.decoration })) := by
  unfold Label.hide
  cases hl : l.decoration with
  | none =>
    show Deal id E (E.set E.editor id (some { held with decoration := l.decoration }))
    rw [hdrawn]
    exact unchanged hk hid
  | some d =>
    rw [hl] at hdrawn
    have hget : ∀ d', (E.editor.destroyDecoration d).decorations.get? d' =
        if d' = d then none else E.editor.decorations.get? d' := fun d' => Table.get?_erase ..
    refine redecorate hid (hk.run (.destroyDecoration d)) rfl rfl rfl rfl (Nat.le_refl _)
      ?_ ?_ ?_ ?_
    · exact fun d' hd' => absurd hd' (by simp)
    · intro d' x hx _
      have hx : (E.editor.destroyDecoration d).decorations.get? d' = some x := hx
      rw [hget] at hx
      split_ifs at hx with hne
      refine ⟨hx, ?_⟩
      rw [← hdrawn]
      exact fun heq => hne (Option.some.inj heq).symm
    · intro d' x hx
      by_cases hd' : d' = d
      · exact Or.inr (hd' ▸ hdrawn.symm)
      · left
        show (E.editor.destroyDecoration d).decorations.get? d' = some x
        rw [hget, if_neg hd', hx]
    · exact fun _ d' hd' => absurd hd' (by simp)

/-- A folding changes the style of its label. -/
lemma restyle {l : Label} (hk : E.editor.Kept) (hid : E.holdings id = some held)
    (hdrawn : l.decoration = held.decoration) (style : LabelStyle) :
    Deal id E (E.set (l.setStyle E.editor style).2 id (some held)) := by
  unfold Label.setStyle
  cases hl : l.decoration with
  | none => exact unchanged hk hid
  | some d =>
    rw [hl] at hdrawn
    have hget : ∀ d', d' ≠ d → (E.editor.setStyle d style.name).decorations.get? d' =
        E.editor.decorations.get? d' := by
      intro d' hd'
      rw [Editor.setStyle, Table.get?_adjust, if_neg hd']
    show Deal id E (E.set (E.editor.setStyle d style.name) id
      (some { held with decoration := held.decoration }))
    refine redecorate hid (hk.run (.setStyle d style.name)) rfl rfl rfl rfl (Nat.le_refl _)
      ?_ ?_ ?_ ?_
    · exact fun d' hd' => Or.inl hd'
    · intro d' x hx hne
      have hd' : d' ≠ d := fun heq => hne (heq ▸ hdrawn.symm)
      rw [hget d' hd'] at hx
      exact ⟨hx, hne⟩
    · intro d' x hx
      by_cases hd' : d' = d
      · exact Or.inr (hd' ▸ hdrawn.symm)
      · left
        rw [hget d' hd', hx]
    · intro hplaced d' hd'
      obtain ⟨x, hx, hmarker⟩ := hplaced.decoration d' hd'
      rw [← hdrawn, Option.some.injEq] at hd'
      refine ⟨{ x with overlay := { x.overlay with style := style.name } }, ?_, hmarker⟩
      rw [Editor.setStyle, Table.get?_adjust, if_pos hd'.symm, hx]
      rfl

/-- A folding is taken down, with all that it holds. -/
lemma release (hid : E.holdings id = some held) (hkept : e.Kept) (htext : e.text = E.editor.text)
    (hcursor : e.cursor = E.editor.cursor) (hnext : e.nextId = E.editor.nextId)
    (hfolds : ∀ k, e.folds.get? k = if k ∈ held.folds then none else E.editor.folds.get? k)
    (hmarkers : ∀ k, e.markers.get? k = if k = held.marker then none else E.editor.markers.get? k)
    (hdecorations : ∀ d x, e.decorations.get? d = some x ↔
      E.editor.decorations.get? d = some x ∧ held.decoration ≠ some d ∧ x.marker ≠ held.marker) :
    Deal id E (E.set e id none) := by
  have hnone : (E.set e id none).holdings id = none := update_self ..
  have howns : ∀ {has k}, E.holdings.Owns has id k ↔ has held k := Holdings.owns_iff hid
  have hfree : ∀ {has k}, ¬(E.set e id none).holdings.Owns has id k :=
    Holdings.not_owns_of_none hnone
  refine ⟨hkept, htext, hcursor, Nat.le_of_eq hnext.symm, fun j hj => update_of_ne hj ..,
    ?_, ?_, ?_, ?_, ?_, ?_⟩
  · intro h h' _ hh'
    rw [hnone] at hh'
    exact absurd hh' (by simp)
  · refine ⟨fun k ho => absurd ho hfree, fun k r hk _ => ?_, fun k r hk => ?_⟩
    · have hk : e.folds.get? k = some r := hk
      rw [hfolds] at hk
      split_ifs at hk with hmem
      exact ⟨hk, fun ho => hmem (howns.1 ho)⟩
    · by_cases hmem : k ∈ held.folds
      · exact Or.inr ⟨howns.2 hmem, hnone⟩
      · left
        show e.folds.get? k = some r
        rw [hfolds, if_neg hmem, hk]
  · refine ⟨fun k ho => absurd ho hfree, fun k m hk _ => ?_, fun k m hk => ?_⟩
    · have hk : e.markers.get? k = some m := hk
      rw [hmarkers] at hk
      split_ifs at hk with heq
      exact ⟨hk, fun ho => heq (howns.1 ho).symm⟩
    · by_cases heq : k = held.marker
      · exact Or.inr ⟨howns.2 heq.symm, hnone⟩
      · left
        show e.markers.get? k = some m
        rw [hmarkers, if_neg heq, hk]
  · refine ⟨fun d ho => absurd ho hfree, fun d x hx _ => ?_, fun d x hx => ?_⟩
    · obtain ⟨hx', hd, -⟩ := (hdecorations d x).1 hx
      exact ⟨hx', fun ho => hd (howns.1 ho)⟩
    · by_cases hd : held.decoration = some d
      · exact Or.inr (Or.inl (howns.2 hd))
      · by_cases hm : x.marker = held.marker
        · exact Or.inr (Or.inr ⟨howns.2 hm.symm, hnone⟩)
        · exact Or.inl ((hdecorations d x).2 ⟨hx, hd, hm⟩)
  · intro _ h hh
    rw [hnone] at hh
    exact absurd hh (by simp)
  · intro h hh _ d x hx
    rw [← Option.some.inj (hid.symm.trans hh)]
    exact ((hdecorations d x).1 hx).2.2

/-- A new folding takes a marker. -/
lemma createMarker (hk : E.editor.Kept) (hid : E.holdings id = none) (r : Range) :
    Deal id E (E.set (E.editor.createMarker r).2 id (some ⟨E.editor.nextId, [], none⟩)) := by
  have hnew :
      (E.set (E.editor.createMarker r).2 id (some ⟨E.editor.nextId, [], none⟩)).holdings id =
      some ⟨E.editor.nextId, [], none⟩ := update_self ..
  have hget : ∀ k, k ≠ E.editor.nextId →
      (E.editor.createMarker r).2.markers.get? k = E.editor.markers.get? k :=
    fun k hk => Table.get?_insert_of_ne _ _ hk
  have hfree : ∀ {has k}, ¬E.holdings.Owns has id k := Holdings.not_owns_of_none hid
  refine ⟨hk.run (.createMarker r), rfl, rfl, Nat.le_succ _, fun j hj => update_of_ne hj .., ?_, ?_,
    ?_, ?_, ?_, fun _ hh => absurd (hid.symm.trans hh) (by simp)⟩
  · intro h h' hh _
    rw [hid] at hh
    exact absurd hh (by simp)
  · refine .same (fun k => ⟨fun ho => ?_, fun ho => absurd ho hfree⟩) rfl
    exact absurd (ho.of_eq hnew) List.not_mem_nil
  · refine ⟨fun k ho => Or.inr (ho.of_eq hnew).symm, fun k m hm ho => ?_, fun k m hm => ?_⟩
    · have hne : k ≠ E.editor.nextId := fun heq => ho ⟨_, hnew, heq.symm⟩
      have hm : (E.editor.createMarker r).2.markers.get? k = some m := hm
      rw [hget k hne] at hm
      exact ⟨hm, hfree⟩
    · left
      exact (hget k (Nat.ne_of_lt (hk.markers k m hm))).trans hm
  · refine .same (fun d => ⟨fun ho => ?_, fun ho => absurd ho hfree⟩) rfl
    have hno : (none : Option DecorationId) = some d := ho.of_eq hnew
    exact absurd hno (by simp)
  · intro _ h hh
    rw [hnew] at hh
    rw [← Option.some.inj hh]
    refine ⟨⟨_, Table.get?_insert_self ..⟩, fun k hk => absurd hk List.not_mem_nil, fun d hd => ?_⟩
    exact absurd hd (by simp)

/-- A folding takes one more fold. -/
lemma fold (hk : E.editor.Kept) (hid : E.holdings id = some held) (r : Range) :
    Deal id E (E.set (E.editor.fold r).2 id
      (some { held with folds := held.folds ++ [E.editor.nextId] })) := by
  have hnew : (E.set (E.editor.fold r).2 id
      (some { held with folds := held.folds ++ [E.editor.nextId] })).holdings id =
        some { held with folds := held.folds ++ [E.editor.nextId] } := update_self ..
  have hget : ∀ k, k ≠ E.editor.nextId →
      (E.editor.fold r).2.folds.get? k = E.editor.folds.get? k :=
    fun k hk => Table.get?_insert_of_ne _ _ hk
  have howns : ∀ {has k}, E.holdings.Owns has id k ↔ has held k := Holdings.owns_iff hid
  refine ⟨hk.run (.fold r), rfl, rfl, Nat.le_succ _, fun j hj => update_of_ne hj .., ?_, ?_, ?_, ?_,
    ?_, fun _ _ hnone => absurd (hnew.symm.trans hnone) (by simp)⟩
  · intro h h' hh hh'
    rw [hid] at hh
    rw [hnew] at hh'
    rw [← Option.some.inj hh, ← Option.some.inj hh']
  · refine ⟨fun k ho => ?_, fun k v hv ho => ?_, fun k v hv => ?_⟩
    · rcases List.mem_append.1 (ho.of_eq hnew) with hold | hlast
      · exact Or.inl (howns.2 hold)
      · exact Or.inr (List.mem_singleton.1 hlast)
    · have hnot : k ∉ held.folds ++ [E.editor.nextId] := fun hmem => ho ⟨_, hnew, hmem⟩
      have hne : k ≠ E.editor.nextId := fun heq => hnot (by simp [heq])
      have hv : (E.editor.fold r).2.folds.get? k = some v := hv
      rw [hget k hne] at hv
      exact ⟨hv, fun hold => hnot (List.mem_append_left _ (howns.1 hold))⟩
    · left
      exact (hget k (Nat.ne_of_lt (hk.folds k v hv))).trans hv
  · refine .same (fun k => ?_) rfl
    rw [howns, Holdings.owns_iff hnew]
    exact Iff.rfl
  · refine .same (fun d => ?_) rfl
    rw [howns, Holdings.owns_iff hnew]
    exact Iff.rfl
  · intro hall h hh
    rw [hnew] at hh
    rw [← Option.some.inj hh]
    obtain ⟨hmarker, hfolds, hdrawn⟩ := hall held hid
    refine ⟨hmarker, fun k hmem => ?_, hdrawn⟩
    show held.marker < k ∧ k < E.editor.nextId + 1
    rcases List.mem_append.1 hmem with hold | hlast
    · exact ⟨(hfolds k hold).1, Nat.lt_succ_of_lt (hfolds k hold).2⟩
    · -- the marker is older than its folds
      obtain ⟨m, hm⟩ := hmarker
      rw [List.mem_singleton.1 hlast]
      exact ⟨hk.markers _ m hm, Nat.lt_succ_self _⟩

end Deal

lemma Estate.set_set (E : Estate) (e e' : Editor) (id : FoldingId) (held held' : Option Holding) :
    (E.set e id held).set e' id held' = E.set e' id held' := by
  rw [Estate.set, Estate.set, Estate.set, update_idem]

lemma Estate.holdings_set_self (E : Estate) (e : Editor) (id : FoldingId) (held : Option Holding) :
    (E.set e id held).holdings id = held :=
  update_self ..

/-- Folds are taken one after the other. -/
lemma Course.foldEach {host : Editor} {E₀ E : Estate} {id : FoldingId} {held : Holding}
    (h : Course host E₀ E) (hid : E.holdings id = some held) (ranges : List Range) :
    Course host E₀ (E.set (PartialFold.foldEach E.editor ranges).2 id
      (some { held with folds := held.folds ++ (PartialFold.foldEach E.editor ranges).1 })) := by
  induction ranges generalizing E held with
  | nil =>
    have hsame := h.deal (Deal.unchanged h.divided.kept hid)
    simp only [PartialFold.foldEach, List.append_nil]
    exact hsame
  | cons r ranges ih =>
    have hone := h.deal (Deal.fold h.divided.kept hid r)
    have hrest := ih hone (E.holdings_set_self _ _ _)
    rw [Estate.set_set, List.append_assoc] at hrest
    exact hrest

end TemplateFolding
