import TemplateFolding.Editor.Overlay
import TemplateFolding.Proofs.DrawnFolds

/-!
# What the screen shows

The screen is one text: the buffer with each fold replaced by its placeholder, split into lines.
`shownBetween` is the part of it that stems from the text between two positions, so the screen is
put together from the parts between any positions that no fold covers, and a position is drawn
where the part before it ends.

`linesBefore` and `linesAfter` cut displayed lines at a screen position. At the end of a part they
give back the lines of the parts on either side.
-/

namespace TemplateFolding

open Text Point Range

/-! ## Lines -/

/-- Two runs of lines put together: the first line of the second run continues the last line of
the first. -/
def joinLines : List Text → List Text → List Text
  | [], ys => ys
  | [x], [] => [x]
  | [x], y :: ys => (x ++ y) :: ys
  | x :: x' :: xs, ys => x :: joinLines (x' :: xs) ys

/-- The position after the last character of displayed lines. -/
def endOfLines : List Text → Point
  | [] => .origin
  | [x] => ⟨0, x.length⟩
  | _ :: x :: xs => ⟨(endOfLines (x :: xs)).row + 1, (endOfLines (x :: xs)).column⟩

/-- The part of displayed lines before a screen position. -/
def linesBefore (lines : List Text) (q : Point) : List Text :=
  lines.take q.row ++ [(lines.getD q.row []).take q.column]

/-- The part of displayed lines from a screen position on. -/
def linesAfter (lines : List Text) (q : Point) : List Text :=
  (lines.getD q.row []).drop q.column :: lines.drop (q.row + 1)

section Lines

variable {xs ys : List Text} {u v : Text}

lemma joinLines_cons {x y : Text} : joinLines [x] (y :: ys) = (x ++ y) :: ys := rfl

/-- The lines in front of the seam are those of the first part. -/
lemma linesBefore_joinLines (hx : xs ≠ []) (hy : ys ≠ []) :
    linesBefore (joinLines xs ys) (endOfLines xs) = xs := by
  fun_induction joinLines xs ys with
  | case1 => exact absurd rfl hx
  | case2 => exact absurd rfl hy
  | case3 x y ys => simp [linesBefore, endOfLines]
  | case4 x x' xs ys ih =>
    have h := ih (by simp) hy
    simp only [linesBefore, endOfLines, List.take_succ_cons, List.getD_cons_succ,
      List.cons_append] at h ⊢
    rw [h]

/-- The lines behind the seam are those of the second part. -/
lemma linesAfter_joinLines (hx : xs ≠ []) (hy : ys ≠ []) :
    linesAfter (joinLines xs ys) (endOfLines xs) = ys := by
  fun_induction joinLines xs ys with
  | case1 => exact absurd rfl hx
  | case2 => exact absurd rfl hy
  | case3 x y ys => simp [linesAfter, endOfLines]
  | case4 x x' xs ys ih =>
    have h := ih (by simp) hy
    simp only [linesAfter, endOfLines, List.drop_succ_cons, List.getD_cons_succ] at h ⊢
    exact h

lemma lines_ne_nil (u : Text) : u.lines ≠ [] := by
  fun_induction Text.lines u <;> simp

/-- A character that is not part of a line ending stands in front of the first line. -/
lemma lines_cons {c : Char} (hc : c ≠ '\n') (h : CleanSeam [c] u) :
    Text.lines (c :: u) = joinLines [[c]] u.lines := by
  obtain ⟨line, rest, hl⟩ := List.exists_cons_of_ne_nil (lines_ne_nil u)
  rw [Text.lines.eq_def]
  split
  · contradiction
  · simp_all
  · simp_all [CleanSeam]
  · rename_i heq
    obtain ⟨rfl, rfl⟩ := List.cons.inj heq
    simp [hl, joinLines]

lemma joinLines_assoc {zs : List Text} (hy : ys ≠ []) :
    joinLines (joinLines xs ys) zs = joinLines xs (joinLines ys zs) := by
  fun_induction joinLines xs ys with
  | case1 => simp [joinLines]
  | case2 => exact absurd rfl hy
  | case3 x y ys =>
    cases ys with
    | nil => cases zs <;> simp [joinLines]
    | cons y' ys => simp [joinLines]
  | case4 x x' xs ys ih =>
    have hne : joinLines (x' :: xs) ys ≠ [] := by
      fun_cases joinLines (x' :: xs) ys <;> simp [hy]
    obtain ⟨z, rest, hz⟩ := List.exists_cons_of_ne_nil hne
    rw [joinLines.eq_4, ← ih hy, hz, joinLines.eq_4]

/-- The lines of two texts that meet cleanly. -/
lemma lines_append (h : CleanSeam u v) : Text.lines (u ++ v) = joinLines u.lines v.lines := by
  fun_induction Text.lines u with
  | case1 =>
    obtain ⟨line, rest, hl⟩ := List.exists_cons_of_ne_nil (lines_ne_nil v)
    simp [hl, joinLines]
  | case2 u ih =>
    have hseam : CleanSeam u v := fun hn => h ⟨by simp [List.getLast?_cons, hn.1], hn.2⟩
    obtain ⟨line, rest, hl⟩ := List.exists_cons_of_ne_nil (lines_ne_nil u)
    rw [List.cons_append, Text.lines, ih hseam, hl, joinLines]
  | case3 u ih =>
    have hseam : CleanSeam u v := fun hn => h ⟨by simp [List.getLast?_cons, hn.1], hn.2⟩
    obtain ⟨line, rest, hl⟩ := List.exists_cons_of_ne_nil (lines_ne_nil u)
    rw [List.cons_append, List.cons_append, Text.lines, ih hseam, hl, joinLines]
  | case4 c u hlf hcrlf hnil ih => exact absurd hnil (lines_ne_nil u)
  | case5 c u hlf hcrlf line rest hl ih =>
    have hseam : CleanSeam u v := fun hn => h ⟨by simp [List.getLast?_cons, hn.1], hn.2⟩
    have hcv : CleanSeam [c] (u ++ v) := by
      rintro ⟨h₁, h₂⟩
      cases u with
      | nil => exact h ⟨h₁, h₂⟩
      | cons d u =>
        simp only [List.getLast?_singleton, Option.some.injEq, List.cons_append,
          List.head?_cons] at h₁ h₂
        exact hcrlf u h₁ (by rw [h₂])
    rw [List.cons_append, lines_cons hlf hcv, ih hseam, ← joinLines_assoc (lines_ne_nil u), hl]
    rfl

/-- The lines of a text end where the text ends. -/
lemma endOfLines_lines (u : Text) : endOfLines u.lines = pointAfter .origin u := by
  fun_induction Text.lines u with
  | case1 => rfl
  | case2 u ih =>
    obtain ⟨line, rest, hl⟩ := List.exists_cons_of_ne_nil (lines_ne_nil u)
    rw [hl] at ih ⊢
    rw [endOfLines, ih, pointAfter, if_pos rfl, pointAfter_rowStart]
    simp [origin, Nat.add_comm]
  | case3 u ih =>
    obtain ⟨line, rest, hl⟩ := List.exists_cons_of_ne_nil (lines_ne_nil u)
    rw [hl] at ih ⊢
    rw [endOfLines, ih, pointAfter, if_neg (by decide), pointAfter, if_pos rfl, pointAfter_rowStart]
    simp [origin, Nat.add_comm]
  | case4 c u hlf hcrlf hnil ih => exact absurd hnil (lines_ne_nil u)
  | case5 c u hlf hcrlf line rest hl ih =>
    rw [hl] at ih
    rw [pointAfter, if_neg hlf, pointAfter_eq_rebase, ← ih]
    cases rest with
    | nil => simp [endOfLines, rebase, origin, Nat.add_comm]
    | cons l rest => simp [endOfLines, rebase, origin]

/-- Up to a clean seam the lines are those of the text before it. -/
lemma linesBefore_lines (h : CleanSeam u v) :
    linesBefore (Text.lines (u ++ v)) (pointAfter .origin u) = u.lines := by
  rw [lines_append h, ← endOfLines_lines]
  exact linesBefore_joinLines (lines_ne_nil u) (lines_ne_nil v)

/-- From a clean seam on the lines are those of the text behind it. -/
lemma linesAfter_lines (h : CleanSeam u v) :
    linesAfter (Text.lines (u ++ v)) (pointAfter .origin u) = v.lines := by
  rw [lines_append h, ← endOfLines_lines]
  exact linesAfter_joinLines (lines_ne_nil u) (lines_ne_nil v)

/-- A text without line feeds is one line. -/
lemma lines_of_notMem (h : '\n' ∉ u) : u.lines = [u] := by
  fun_induction Text.lines u with
  | case1 => rfl
  | case2 => simp at h
  | case3 => simp at h
  | case4 c u hlf hcrlf hnil ih => exact absurd hnil (lines_ne_nil u)
  | case5 c u hlf hcrlf line rest hl ih =>
    have hu := ih fun hn => h (List.mem_cons_of_mem _ hn)
    rw [hl] at hu
    simp_all

end Lines

/-! ## The text shown between two positions -/

/-- The text from `a` to `b` with each of the folds in it replaced by its placeholder. -/
def shownBetween (t : Text) (a b : Point) : List Range → Text
  | [] => t.slice ⟨a, b⟩
  | f :: rest => t.slice ⟨a, f.start⟩ ++ foldPlaceholder :: shownBetween t f.stop b rest

/-- Whether all ranges have addressable ends. -/
def AddressableEnds (t : Text) (l : List Range) : Prop :=
  ∀ r ∈ l, t.Addressable r.start ∧ t.Addressable r.stop

section Shown

variable {t : Text} {a b c p : Point} {l l' : List Range}

/-- Merging makes no ends that cannot be addressed. -/
lemma AddressableEnds.effectiveFolds (h : AddressableEnds t l) :
    AddressableEnds t (effectiveFolds l) := by
  intro r hr
  obtain ⟨⟨s₁, hs₁, he₁⟩, ⟨s₂, hs₂, he₂⟩⟩ := mem_effectiveFolds hr
  exact ⟨he₁ ▸ (h s₁ hs₁).1, he₂ ▸ (h s₂ hs₂).2⟩

/-- What is displayed from a position on is what is shown up to the end of the text. -/
lemma foldedFrom_eq (t : Text) (a : Point) (l : List Range) :
    foldedFrom t a l = shownBetween t a t.fullRange.stop l := by
  induction l generalizing a with
  | nil => rfl
  | cons f l ih => rw [foldedFrom, shownBetween, ih]

/-- What is shown falls apart at a position between the folds. -/
lemma shownBetween_append (ha : t.Addressable a) (hb : t.Addressable b) (hc : t.Addressable c)
    (hl : AddressableEnds t l) (hl' : AddressableEnds t l') (h : Laid a b l) (h' : Laid b c l') :
    shownBetween t a c (l ++ l') = shownBetween t a b l ++ shownBetween t b c l' := by
  induction l generalizing a with
  | nil =>
    have hab := (offset_le_offset_iff ha hb).2 h
    cases l' with
    | nil =>
      have hbc := (offset_le_offset_iff hb hc).2 h'
      exact (slice_append hab hbc).symm
    | cons s l' =>
      have hbs := (offset_le_offset_iff hb (hl' s (by simp)).1).2 h'.1
      simp only [List.nil_append, shownBetween]
      rw [← slice_append hab hbs, List.append_assoc]
  | cons f l ih =>
    have hf := hl f (by simp)
    rw [List.cons_append, shownBetween, shownBetween,
      ih hf.2 (fun r hr => hl r (List.mem_cons_of_mem _ hr)) h.2.2, List.append_assoc,
      List.cons_append]

/-- What is shown up to `b` ends in a carriage return only if the text before `b` does. -/
lemma getLast?_shownBetween (ha : t.Addressable a) (hb : t.Addressable b)
    (hl : AddressableEnds t l) (h : Laid a b l)
    (hr : (shownBetween t a b l).getLast? = some '\r') :
    (t.take (t.offset b)).getLast? = some '\r' := by
  induction l generalizing a with
  | nil =>
    rw [shownBetween] at hr
    rw [← take_append_slice ((offset_le_offset_iff ha hb).2 h), List.getLast?_append, hr]
    rfl
  | cons f l ih =>
    have hf := hl f (by simp)
    rw [shownBetween, List.getLast?_append, List.getLast?_cons] at hr
    cases hs : (shownBetween t f.stop b l).getLast? with
    | none =>
      rw [hs] at hr
      simp [foldPlaceholder] at hr
    | some c =>
      rw [hs] at hr
      have hc : c = '\r' := by simpa using hr
      exact ih hf.2 (fun r hr => hl r (List.mem_cons_of_mem _ hr)) h.2.2 (hc ▸ hs)

/-- What is shown from `a` on starts with a line feed only if the text after `a` does. -/
lemma head?_shownBetween (h : (shownBetween t a b l).head? = some '\n') :
    (t.drop (t.offset a)).head? = some '\n' := by
  have key : ∀ r : Range, (t.slice r).head? = some '\n' →
      (t.drop (t.offset r.start)).head? = some '\n' := by
    intro r hr
    rw [slice, List.head?_take] at hr
    split at hr
    · simp at hr
    · exact hr
  cases l with
  | nil => exact key ⟨a, b⟩ h
  | cons f l =>
    rw [shownBetween, List.head?_append] at h
    cases hs : (t.slice ⟨a, f.start⟩).head? with
    | none =>
      rw [hs] at h
      simp [foldPlaceholder] at h
    | some c =>
      rw [hs] at h
      have hc : c = '\n' := by simpa using h
      exact key ⟨a, f.start⟩ (hc ▸ hs)

/-- Shown texts meet cleanly at an addressable position. -/
lemma cleanSeam_shownBetween (ha : t.Addressable a) (hb : t.Addressable b)
    (hl : AddressableEnds t l) (h : Laid a b l) :
    CleanSeam (shownBetween t a b l) (shownBetween t b c l') := by
  rintro ⟨h₁, h₂⟩
  exact hb.isCut.2 ⟨getLast?_shownBetween ha hb hl h h₁, head?_shownBetween h₂⟩

/-! ## Where positions are drawn -/

/-- Reckoning without folds is laying out the text in between. -/
lemma carry_eq_pointAfter (ha : t.Addressable a) (hp : t.Addressable p) (h : a ≤ p) (s : Point) :
    a.carry s p = pointAfter s (t.slice ⟨a, p⟩) := by
  have hend := pointAfter_slice ha hp h
  rw [pointAfter_eq_rebase] at hend ⊢
  set q := pointAfter .origin (t.slice ⟨a, p⟩)
  rw [← hend, carry]
  simp only [rebase]
  split_ifs <;> simp_all

/-- A position that no fold covers is drawn where what is shown before it ends. -/
lemma screenFrom_append (ha : t.Addressable a) (hp : t.Addressable p) (hl : AddressableEnds t l)
    (h : Laid a p l) (h' : ∀ f ∈ l', p ≤ f.start) (s : Point) :
    screenFrom p a s (l ++ l') = pointAfter s (shownBetween t a p l) := by
  induction l generalizing a s with
  | nil =>
    rw [shownBetween, ← carry_eq_pointAfter ha hp h]
    cases l' with
    | nil => rfl
    | cons f l' => rw [List.nil_append, screenFrom, if_pos (h' f (by simp))]
  | cons f l ih =>
    obtain ⟨haf, hff, hfp⟩ := h
    have hf := hl f (by simp)
    have h₁ : ¬p ≤ f.start := Point.not_le.2 (lt_of_lt_of_le hff hfp.le)
    have h₂ : ¬p < f.stop := Point.not_lt.2 hfp.le
    rw [List.cons_append, screenFrom, if_neg h₁]
    simp only [if_neg h₂]
    rw [ih hf.2 (fun r hr => hl r (List.mem_cons_of_mem _ hr)) hfp, shownBetween,
      pointAfter_append, ← carry_eq_pointAfter ha hf.1 haf, pointAfter,
      if_neg (by decide : foldPlaceholder ≠ '\n')]

/-! ## Folds on both sides of a position -/

/-- Folds with addressable ends; those that hide something lie between two positions. -/
def FoldsWithin (t : Text) (a b : Point) (folds : List Range) : Prop :=
  ∀ f ∈ folds, (t.Addressable f.start ∧ t.Addressable f.stop) ∧ f.start ≤ f.stop ∧
    (f.start < f.stop → a ≤ f.start ∧ f.stop ≤ b)

namespace FoldsWithin

/-- Folds that are not empty are within the positions that they lie between. -/
lemma of_lt (h : ∀ f ∈ l, (t.Addressable f.start ∧ t.Addressable f.stop) ∧
    a ≤ f.start ∧ f.start < f.stop ∧ f.stop ≤ b) : FoldsWithin t a b l := by
  intro f hf
  obtain ⟨hends, hstart, hlt, hstop⟩ := h f hf
  exact ⟨hends, le_of_lt hlt, fun _ => ⟨hstart, hstop⟩⟩

lemma addressableEnds (h : FoldsWithin t a b l) : AddressableEnds t (effectiveFolds l) :=
  AddressableEnds.effectiveFolds fun f hf => (h f hf).1

/-- Folds within two positions are drawn one after the other between these. -/
lemma laid (h : FoldsWithin t a b l) (hab : a ≤ b) : Laid a b (effectiveFolds l) :=
  laid_effectiveFolds hab fun f hf => (h f hf).2

/-- Folds up to a position and folds from it on are within the outer positions. -/
lemma append (h : FoldsWithin t a p l) (h' : FoldsWithin t p b l') (hap : a ≤ p) (hpb : p ≤ b) :
    FoldsWithin t a b (l ++ l') := by
  intro f hf
  rcases List.mem_append.1 hf with hf | hf
  · obtain ⟨hends, hle, hin⟩ := h f hf
    exact ⟨hends, hle, fun hlt => ⟨(hin hlt).1, le_trans (hin hlt).2 hpb⟩⟩
  · obtain ⟨hends, hle, hin⟩ := h' f hf
    exact ⟨hends, hle, fun hlt => ⟨le_trans hap (hin hlt).1, (hin hlt).2⟩⟩

/-- Folds on both sides of a position are not merged. -/
lemma effectiveFolds_append (h : FoldsWithin t a p l) (h' : FoldsWithin t p b l') :
    effectiveFolds (l ++ l') = effectiveFolds l ++ effectiveFolds l' := by
  apply TemplateFolding.effectiveFolds_append (a := p)
  · exact fun f hf hlt => ((h f hf).2.2 hlt).2
  · exact fun f hf hlt => ((h' f hf).2.2 hlt).1
  · intro f hf
    rcases List.mem_append.1 hf with hf | hf
    · exact (h f hf).2.1
    · exact (h' f hf).2.1

/-- What is shown on both sides of a position, put together. -/
lemma shownBetween_append (h : FoldsWithin t a p l) (h' : FoldsWithin t p b l')
    (ha : t.Addressable a) (hp : t.Addressable p) (hb : t.Addressable b) (hap : a ≤ p)
    (hpb : p ≤ b) :
    shownBetween t a b (effectiveFolds (l ++ l')) =
      shownBetween t a p (effectiveFolds l) ++ shownBetween t p b (effectiveFolds l') := by
  rw [h.effectiveFolds_append h']
  exact TemplateFolding.shownBetween_append ha hp hb h.addressableEnds h'.addressableEnds
    (h.laid hap) (h'.laid hpb)

/-- A position with folds before it and after it is drawn after what is shown before it. -/
lemma screenPoint {folds : List Range} (h : FoldsWithin t .origin p l) (h' : FoldsWithin t p b l')
    (hp : t.Addressable p) (hpb : p ≤ b) (hperm : folds.Perm (l ++ l')) :
    screenPoint t folds p = pointAfter .origin (shownBetween t .origin p (effectiveFolds l)) := by
  rw [TemplateFolding.screenPoint, hp, effectiveFolds_congr hperm, h.effectiveFolds_append h']
  exact screenFrom_append (addressable_origin t) hp h.addressableEnds (h.laid (origin_le p))
    (fun f hf => ((h'.laid hpb).mem hf).1) _

end FoldsWithin

end Shown

end TemplateFolding
