import TemplateFolding.Proofs.NoHistory
import TemplateFolding.Proofs.ScreenOrder
import TemplateFolding.Proofs.TrackedText

/-!
# Ranges with firm text

An edit can join a carriage return and a line feed that it did not touch into one line ending, and
then a tracked range may stop between the two. This does not happen to a range whose text starts
with no line feed and stops with no carriage return, as every declaration does: as long as the edits
keep out of it, both its ends stay addressable in any text.

For such a range the last section settles when an edit takes the cursor out of it. The edit then
starts where the range stops, the range stays where it is, and so does the place where its start is
drawn.
-/

namespace TemplateFolding

open Text Point

/-! ## Firm text -/

namespace Text

variable {t u v x : Text} {r : Range}

/-- A text at neither end of which a line ending can be completed. -/
structure Firm (x : Text) : Prop where
  ne_nil : x ≠ []
  head : x.head? ≠ some '\n'
  last : x.getLast? ≠ some '\r'

/-- A firm text can follow anything. -/
lemma Firm.cleanSeam_left (h : x.Firm) (u v : Text) : CleanSeam u (x ++ v) := by
  rintro ⟨-, hhead⟩
  rw [List.head?_append_of_ne_nil _ h.ne_nil] at hhead
  exact h.head hhead

lemma Firm.cleanSeam_right (h : x.Firm) (u v : Text) : CleanSeam (u ++ x) v := by
  rintro ⟨hlast, -⟩
  rw [List.getLast?_append_of_ne_nil _ h.ne_nil] at hlast
  exact h.last hlast

/-- The text `x` stands in a range of `t`. -/
def StandsAt (t x : Text) (r : Range) : Prop :=
  ∃ u v, t = u ++ (x ++ v) ∧ r = ⟨pointAfter .origin u, pointAfter .origin (u ++ x)⟩

/-- The ends of a range with firm text are addressable. -/
lemma StandsAt.holds (h : t.StandsAt x r) (hx : x.Firm) :
    t.Addressable r.start ∧ t.Addressable r.stop ∧ r.start < r.stop := by
  obtain ⟨u, v, rfl, rfl⟩ := h
  have hstop := (hx.cleanSeam_right u v).addressable.1
  rw [List.append_assoc] at hstop
  refine ⟨(hx.cleanSeam_left u v).addressable.1, hstop, ?_⟩
  rw [pointAfter_append]
  exact lt_pointAfter _ hx.ne_nil

end Text

/-! ## Under an edit -/

namespace Edit

variable {t inserted x : Text} {edit : Edit} {p : Point} {r f : Range}

/-- Firm text that an edit keeps out of goes where the range goes. -/
lemma Replaces.standsAt (h : Replaces t inserted edit) (hs : t.StandsAt x r) (hx : x.Firm)
    (hmiss : edit.hitsInside r = false) :
    (edit.apply t inserted).StandsAt x (edit.mapRange r) := by
  obtain ⟨hstart, hstop, hlt⟩ := hs.holds hx
  obtain ⟨u, v, rfl, rfl⟩ := hs
  have hu := (hx.cleanSeam_left u v).addressable.2
  have hux := (hx.cleanSeam_right u v).addressable.2
  rw [List.append_assoc] at hux
  have horder := (offset_le_offset_iff h.start h.oldStop).2 h.ordered
  have hpoint := h.start.pointAt_offset
  have hpoint' := h.oldStop.pointAt_offset
  rcases hitsInside_eq_false.1 hmiss with hle | hle
  · -- the edit comes after the range
    have hlen : (u ++ x).length ≤ (u ++ (x ++ v)).offset edit.start := by
      rw [← hux]
      exact (offset_le_offset_iff hstop h.start).2 hle
    have hbefore : ¬edit.oldStop ≤ pointAfter .origin u := fun hcon =>
      lt_irrefl _ (lt_of_lt_of_le hlt (le_trans hle (le_trans h.ordered hcon)))
    rw [mapRange_of_before hbefore hle]
    refine ⟨u, v.take ((u ++ (x ++ v)).offset edit.start - (u ++ x).length) ++
      (inserted ++ (u ++ (x ++ v)).drop ((u ++ (x ++ v)).offset edit.oldStop)), ?_, rfl⟩
    have htake : (u ++ (x ++ v)).take ((u ++ (x ++ v)).offset edit.start) =
        u ++ (x ++ v.take ((u ++ (x ++ v)).offset edit.start - (u ++ x).length)) := by
      rw [← List.append_assoc u x v, List.take_append, List.append_assoc u x v,
        List.take_of_length_le hlen, List.append_assoc]
    show (u ++ (x ++ v)).take _ ++ inserted ++ _ = _
    rw [htake]
    simp only [List.append_assoc]
  · -- the edit comes before the range
    have hlen : (u ++ (x ++ v)).offset edit.oldStop ≤ u.length := by
      rw [← hu]
      exact (offset_le_offset_iff h.oldStop hstart).2 hle
    have htake : (u ++ (x ++ v)).take ((u ++ (x ++ v)).offset edit.start) =
        u.take ((u ++ (x ++ v)).offset edit.start) := List.take_append_of_le_length (by omega)
    have htake' : (u ++ (x ++ v)).take ((u ++ (x ++ v)).offset edit.oldStop) =
        u.take ((u ++ (x ++ v)).offset edit.oldStop) := List.take_append_of_le_length hlen
    rw [pointAt, htake] at hpoint
    rw [pointAt, htake'] at hpoint'
    have htext : edit.apply (u ++ (x ++ v)) inserted =
        (u.take ((u ++ (x ++ v)).offset edit.start) ++ inserted ++
          u.drop ((u ++ (x ++ v)).offset edit.oldStop)) ++ (x ++ v) := by
      show List.take _ _ ++ inserted ++ List.drop _ _ = _
      rw [htake, List.drop_append_of_le_length hlen]
      simp only [List.append_assoc]
    rw [mapRange_of_after hle]
    refine ⟨_, v, htext, ?_⟩
    generalize (u ++ (x ++ v)).offset edit.start = n at hpoint
    generalize (u ++ (x ++ v)).offset edit.oldStop = m at hpoint' hlen
    have hfront : edit.shift (pointAfter .origin u) =
        pointAfter .origin (u.take n ++ inserted ++ u.drop m) := by
      conv_lhs => rw [← List.take_append_drop m u, pointAfter_append, hpoint',
        shift_pointAfter (le_refl _), shift_oldStop, h.newStop]
      rw [pointAfter_append, pointAfter_append, hpoint]
    rw [pointAfter_append _ u x, pointAfter_append _ _ x, ← hfront, shift_pointAfter hle]

/-- Behind the replaced text, an edit keeps different points apart. -/
lemma shift_lt_shift {q : Point} (hp : edit.oldStop ≤ p) (hpq : p < q) :
    edit.shift p < edit.shift q := by
  rw [le_iff] at hp
  rw [lt_iff] at *
  simp only [shift]
  split_ifs <;> dsimp only <;> omega

/-- A range with something in it keeps it, unless an edit changes the text inside. -/
lemma mapRange_lt (hlt : r.start < r.stop) (hmiss : edit.hitsInside r = false) :
    (edit.mapRange r).start < (edit.mapRange r).stop := by
  by_cases hafter : edit.oldStop ≤ r.start
  · rw [mapRange_of_after hafter]
    exact shift_lt_shift hafter hlt
  · rwa [mapRange_of_before hafter ((hitsInside_eq_false.1 hmiss).resolve_right hafter)]

/-- A range that starts after a position in front of the edit still does so afterwards. -/
lemma Replaces.le_start_mapRange (h : Replaces t inserted edit) (hmiss : edit.hitsInside r = false)
    (hp : p ≤ edit.start) (hpr : p ≤ r.start) : p ≤ (edit.mapRange r).start := by
  by_cases hafter : edit.oldStop ≤ r.start
  · rw [mapRange_of_after hafter]
    have hnew : edit.start ≤ edit.newStop := h.newStop ▸ le_pointAfter _ _
    exact le_trans hp (le_trans hnew (newStop_le_shift hafter))
  · rwa [mapRange_of_before hafter ((hitsInside_eq_false.1 hmiss).resolve_right hafter)]

/-- An edit takes the cursor out of a range only if it starts where the range stops, and the cursor
stands there. -/
lemma Replaces.start_of_leaves (h : Replaces t inserted edit) (hmiss : edit.hitsInside r = false)
    (hin : r.contains p = true) (hout : (edit.mapRange r).contains (edit.mapCursor p) = false) :
    edit.start = r.stop ∧ p = r.stop ∧ edit.mapRange r = r := by
  obtain ⟨hsp, hps⟩ := of_decide_eq_true hin
  have hout := of_decide_eq_false hout
  by_cases hafter : edit.oldStop ≤ r.start
  · -- the cursor moves along with the range
    have hp := le_trans hafter hsp
    rw [mapRange_of_after hafter, mapCursor, if_neg (not_lt.2 (le_trans h.ordered hp)), if_pos hp]
      at hout
    exact absurd ⟨shift_le_shift hafter hsp, shift_le_shift hp hps⟩ hout
  · have hbefore := (hitsInside_eq_false.1 hmiss).resolve_right hafter
    rw [mapRange_of_before hafter hbefore] at hout ⊢
    have hp : edit.start ≤ p := by
      by_contra hcon
      rw [mapCursor, if_pos (not_le.1 hcon)] at hout
      exact hout ⟨hsp, hps⟩
    exact ⟨le_antisymm (le_trans hp hps) hbefore, le_antisymm hps (le_trans hbefore hp), rfl⟩

end Edit

/-! ## An edit where a range stops -/

namespace Editor

variable {e : Editor} {edit : Edit} {inserted x : Text} {r f : Range} {k : FoldId}

/-- Every fold after an edit was one before it that the edit kept out of. -/
lemma exists_of_get?_folds_splice (h : (e.splice edit inserted).folds.get? k = some f) :
    ∃ g, e.folds.get? k = some g ∧ edit.hitsInside g = false ∧ f = edit.mapRange g := by
  rw [get?_folds_splice] at h
  obtain ⟨g, hg, rfl⟩ := Option.map_eq_some_iff.1 h
  obtain ⟨hg, hmiss⟩ := Option.filter_eq_some_iff.1 hg
  exact ⟨g, hg, by simpa using hmiss, rfl⟩

/-- An edit leaves no fold around the place where it starts. -/
lemma not_buried_splice (h : edit.Replaces e.text inserted) (hlt : r.start < r.stop)
    (hstart : edit.start = r.stop) :
    ¬Buried (e.splice edit inserted).folds.values r.start r.stop := by
  intro hburied
  obtain ⟨f, hf, hbefore, hafter⟩ := hburied r.stop hlt (le_refl _)
  obtain ⟨k, hk⟩ := Table.mem_values_iff.1 hf
  obtain ⟨g, -, hmiss, rfl⟩ := exists_of_get?_folds_splice hk
  rw [← hstart] at hbefore hafter
  by_cases hg : edit.oldStop ≤ g.start
  · have hle := h.le_start_mapRange hmiss (le_refl _) (le_trans h.ordered hg)
    exact not_lt.2 hle hbefore
  · have hle := (Edit.hitsInside_eq_false.1 hmiss).resolve_right hg
    rw [Edit.mapRange_of_before hg hle] at hafter
    exact not_lt.2 hle hafter

/-- An edit where a range stops does not move what stands in front of the range on the screen,
unless a fold around the range goes. -/
lemma screenPoint_splice_of_start (h : edit.Replaces e.text inserted) (hs : e.text.StandsAt x r)
    (hx : x.Firm) (hstart : edit.start = r.stop) (hfree : ¬Buried e.folds.values r.start r.stop) :
    (e.splice edit inserted).screenPoint r.start = e.screenPoint r.start := by
  obtain ⟨haddr, -, hlt⟩ := hs.holds hx
  have hafter : ¬edit.oldStop ≤ r.start := fun hle =>
    lt_irrefl _ (lt_of_lt_of_le hlt (hstart ▸ le_trans h.ordered hle))
  have hmiss : edit.hitsInside r = false :=
    Edit.hitsInside_eq_false.2 (.inl (hstart ▸ le_refl _))
  have hs' := h.standsAt hs hx hmiss
  rw [Edit.mapRange_of_before hafter (hstart ▸ le_refl _)] at hs'
  refine screenPoint_congr haddr (hs'.holds hx).1 (Table.ext_get? fun k => ?_)
  rw [Table.get?_filter, Table.get?_filter, get?_folds_splice]
  cases hk : e.folds.get? k with
  | none => rfl
  | some g =>
    by_cases hg : g.start < r.start
    · -- a fold that starts in front and is hit reaches past the range
      have hbefore : ¬edit.oldStop ≤ g.start := fun hle => hafter (le_trans hle (le_of_lt hg))
      have hgmiss : edit.hitsInside g = false := by
        by_contra hhit
        obtain ⟨hreach, -⟩ := of_decide_eq_true (Bool.not_eq_false _ ▸ hhit)
        exact hfree fun x hpx hxq => ⟨g, Table.mem_values_iff.2 ⟨k, hk⟩,
          lt_of_lt_of_le hg (le_of_lt hpx), lt_of_le_of_lt hxq (hstart ▸ hreach)⟩
      have hle := (Edit.hitsInside_eq_false.1 hgmiss).resolve_right hbefore
      simp [Option.filter_some, hgmiss, Edit.mapRange_of_before hbefore hle]
    · -- the others start at or after the range, before and after the edit
      cases hgmiss : edit.hitsInside g with
      | true => simp [Option.filter_some, hgmiss, hg]
      | false =>
        have hle := h.le_start_mapRange hgmiss (le_of_lt (hstart ▸ hlt)) (not_lt.1 hg)
        simp [Option.filter_some, hgmiss, hg, not_lt.2 hle]

end Editor

end TemplateFolding
