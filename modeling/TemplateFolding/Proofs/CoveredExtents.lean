import TemplateFolding.Proofs.StandingFoldings

/-!
# How wide a folded range is drawn

The folds of a folding leave as many columns of its range visible as its preview has. Other folds
change that only if they reach over the whole range. One that reaches past the stop leaves nothing,
and the range is drawn as a point. One that ends where the range ends leaves its placeholder.
-/

namespace TemplateFolding

open Text Point Range

namespace Range

/-! ## Folds around a range -/

/-- Whether `q` holds all of `r`. -/
def covers (q r : Range) : Bool :=
  decide (q.start ≤ r.start ∧ r.stop ≤ q.stop)

/-- Whether `q` holds all of `r` and reaches past it. -/
def buries (q r : Range) : Bool :=
  decide (q.start ≤ r.start ∧ r.stop < q.stop)

/-- Whether `q` shares nothing with `r`, or holds all of it. -/
def respects (q r : Range) : Bool :=
  !q.overlaps r || q.covers r

/-- The number of columns that a range with a preview of `width` columns takes among folds that
respect it. -/
def breadth (folds : List Range) (r : Range) (width : Nat) : Nat :=
  if folds.any (·.buries r) then 0 else if folds.any (·.covers r) then 1 else width

variable {q r s : Range} {l l' : List Range} {width m n : Nat}

lemma covers_of_buries (h : q.buries r = true) : q.covers r = true := by
  obtain ⟨hstart, hstop⟩ := of_decide_eq_true h
  exact decide_eq_true ⟨hstart, le_of_lt hstop⟩

/-- A range respects another if they have nothing in common, or it holds all of it. -/
lemma respects_iff :
    q.respects r = true ↔ (q.stop ≤ r.start ∨ r.stop ≤ q.start) ∨ q.covers r = true := by
  simp only [respects, overlaps, Bool.or_eq_true, Bool.not_eq_true', decide_eq_false_iff_not,
    not_and_or, Point.not_lt]
  tauto

/-- If no fold reaches past a range, those that start in front of its stop end with it. -/
lemma stop_le_of_respects {others inner : List Range} (hr : r.start < r.stop)
    (hothers : ∀ q ∈ others, q.respects r = true) (hinner : ∀ q ∈ inner, q.stop ≤ r.stop)
    (hburied : ¬others.any (·.buries r) = true) (hq : q ∈ others ++ inner)
    (hstart : q.start < r.stop) : q.stop ≤ r.stop := by
  rcases List.mem_append.1 hq with hq | hq
  · rcases respects_iff.1 (hothers q hq) with (hapart | hapart) | hcovers
    · exact le_trans hapart (le_of_lt hr)
    · exact absurd (lt_of_lt_of_le hstart hapart) (Point.lt_irrefl _)
    · apply Point.not_lt.1
      intro hpast
      have hburies : q.buries r = true := decide_eq_true ⟨(of_decide_eq_true hcovers).1, hpast⟩
      exact hburied (List.any_eq_true.2 ⟨q, hq, hburies⟩)
  · exact hinner q hq

/-- A range that keeps out of another does not hold it. -/
lemma KeepsOutOf.covers_eq_false (h : q.KeepsOutOf r) (hr : r.start < r.stop) :
    q.covers r = false := by
  have hlt := h.lt
  have hapart := h.apart
  simp only [covers, decide_eq_false_iff_not, lt_iff, le_iff] at hlt hapart hr ⊢
  omega

/-- Only the folds that hold a range matter for its breadth. -/
lemma breadth_congr (h : ∀ q, q.covers r = true → (q ∈ l ↔ q ∈ l')) :
    breadth l r width = breadth l' r width := by
  have hburies : l.any (·.buries r) = l'.any (·.buries r) := by
    rw [Bool.eq_iff_iff, List.any_eq_true, List.any_eq_true]
    exact exists_congr fun q => and_congr_left fun hq => h q (covers_of_buries hq)
  have hcovers : l.any (·.covers r) = l'.any (·.covers r) := by
    rw [Bool.eq_iff_iff, List.any_eq_true, List.any_eq_true]
    exact exists_congr fun q => and_congr_left fun hq => h q hq
  rw [breadth, breadth, hburies, hcovers]

/-- With fewer folds a range is not narrower. -/
lemma breadth_le_of_subset (h : l' ⊆ l) (hw : 1 ≤ width) :
    breadth l r width ≤ breadth l' r width := by
  have hmono : ∀ p : Range → Bool, l'.any p = true → l.any p = true := by
    intro p hp
    obtain ⟨q, hq, hpq⟩ := List.any_eq_true.1 hp
    exact List.any_eq_true.2 ⟨q, h hq, hpq⟩
  have hburies := hmono (·.buries r)
  have hcovers := hmono (·.covers r)
  unfold breadth
  split_ifs <;> first | omega | simp_all

/-- A range takes no column if a fold holds it and reaches past it. -/
lemma breadth_eq_zero_iff (hw : 1 < width) :
    breadth l r width = 0 ↔ ∃ q ∈ l, q.buries r = true := by
  rw [← List.any_eq_true, breadth]
  split_ifs with hburies hcovers
  · simp [hburies]
  · simp [hburies]
  · simp [hburies]
    omega

/-- A range takes one column at most if a fold holds it. -/
lemma breadth_le_one_iff (hw : 1 < width) :
    breadth l r width ≤ 1 ↔ ∃ q ∈ l, q.covers r = true := by
  rw [← List.any_eq_true, breadth]
  split_ifs with hburies hcovers
  · obtain ⟨q, hq, hqr⟩ := List.any_eq_true.1 hburies
    have hcovers : l.any (·.covers r) = true := List.any_eq_true.2 ⟨q, hq, covers_of_buries hqr⟩
    simp [hcovers]
  · simp [hcovers]
  · simp [hcovers]
    omega

/-- With fewer folds a range is as wide as before if for each fold that held it one is left that
holds it too, and reaches past it if that one did. -/
lemma breadth_eq_iff (h : l' ⊆ l) (hw : 1 < width) :
    breadth l' r width = breadth l r width ↔
      ∀ q ∈ l, q.covers r = true →
        ∃ q' ∈ l', q'.covers r = true ∧ (q.buries r = true → q'.buries r = true) := by
  constructor
  · intro heq q hq hcovers
    by_cases hburies : q.buries r = true
    · have hzero : breadth l' r width = 0 :=
        heq.trans ((breadth_eq_zero_iff hw).2 ⟨q, hq, hburies⟩)
      obtain ⟨q', hq', hburies'⟩ := (breadth_eq_zero_iff hw).1 hzero
      exact ⟨q', hq', covers_of_buries hburies', fun _ => hburies'⟩
    · have hone : breadth l' r width ≤ 1 :=
        heq.trans_le ((breadth_le_one_iff hw).2 ⟨q, hq, hcovers⟩)
      obtain ⟨q', hq', hcovers'⟩ := (breadth_le_one_iff hw).1 hone
      exact ⟨q', hq', hcovers', fun hq => absurd hq hburies⟩
  · intro hleft
    have hburies : l'.any (·.buries r) = l.any (·.buries r) := by
      rw [Bool.eq_iff_iff, List.any_eq_true, List.any_eq_true]
      constructor
      · rintro ⟨q, hq, hqr⟩
        exact ⟨q, h hq, hqr⟩
      · rintro ⟨q, hq, hqr⟩
        obtain ⟨q', hq', -, hqr'⟩ := hleft q hq (covers_of_buries hqr)
        exact ⟨q', hq', hqr' hqr⟩
    have hcovers : l'.any (·.covers r) = l.any (·.covers r) := by
      rw [Bool.eq_iff_iff, List.any_eq_true, List.any_eq_true]
      constructor
      · rintro ⟨q, hq, hqr⟩
        exact ⟨q, h hq, hqr⟩
      · rintro ⟨q, hq, hqr⟩
        obtain ⟨q', hq', hqr', -⟩ := hleft q hq hqr
        exact ⟨q', hq', hqr'⟩
    rw [breadth, breadth, hburies, hcovers]

/-! ## Extents on one row -/

/-- The range takes `n` columns of one row. -/
def HasBreadth (r : Range) (n : Nat) : Prop :=
  r.stop = ⟨r.start.row, r.start.column + n⟩

lemma HasBreadth.isPoint_iff (h : r.HasBreadth n) : r.isPoint = true ↔ n = 0 := by
  rw [isPoint, beq_iff_eq, h]
  constructor
  · intro heq
    have hcolumn := congrArg Point.column heq
    dsimp only at hcolumn
    omega
  · rintro rfl
    rfl

/-- Ranges on one row are translations of each other if they take as many columns. -/
lemma HasBreadth.isTranslationOf_iff (h : r.HasBreadth m) (h' : s.HasBreadth n) :
    r.isTranslationOf s = true ↔ m = n := by
  rw [isTranslationOf, beq_iff_eq, h, h', deltaTo, deltaTo, Prod.mk.injEq]
  dsimp only
  omega

end Range

section Walk

variable {a b p : Point} {f : Range} {l : List Range}

/-- Behind a fold the walk goes on one column after its placeholder. -/
lemma screenFrom_stop_of_covered (h : Laid a b l) (hf : f ∈ l) (hstart : f.start ≤ p)
    (hstop : p < f.stop) (s : Point) :
    screenFrom f.stop a s l = ⟨(screenFrom p a s l).row, (screenFrom p a s l).column + 1⟩ := by
  obtain ⟨l₁, l₂, rfl⟩ := List.append_of_mem hf
  obtain ⟨h₁, hlaid⟩ := h.split
  have hlt := hlaid.2.1
  have h₂ := hlaid.2.2
  rw [screenFrom_covered h₁ hstart hstop, screenFrom_front h₁ hlaid,
    screenFrom_cut h₁ hlaid (le_of_lt hlt), screenFrom_after hlt (le_refl _), screenFrom_self h₂,
    carry_self]

/-- The pieces of a partial fold leave `width` columns of its range. -/
lemma screenFrom_pieces {t : Text} {r : Range} {width : Nat} (hs : t.Addressable r.start)
    (he : t.Addressable r.stop) (hw : 0 < width) (hwl : width ≤ (t.slice r).visualLength) :
    screenFrom r.stop r.start .origin (effectiveFolds (PartialFold.pieces t r width)) =
      ⟨0, width⟩ := by
  have hr := PartialFold.start_le_stop_of_width hs he (Nat.lt_of_lt_of_le hw hwl)
  have hin : ∀ f ∈ PartialFold.pieces t r width,
      r.start ≤ f.start ∧ f.start < f.stop ∧ f.stop ≤ r.stop :=
    fun f hf => (PartialFold.laid_pieces hs he hw hwl f hf).2
  -- among no other folds the distance is known in two ways
  have hperm : (PartialFold.pieces t r width).Perm ([] ++ PartialFold.pieces t r width) := .refl _
  have hnone : ClearOf t r [] := ⟨by simp, fun _ hf => absurd hf (by simp), by simp⟩
  have hwide := screenPoint_pieces hs he hnone hw hwl hperm
  have hfar := screenFrom_stop hnone.ordered hnone.clear hin (le_of_lt hr) hperm
  rw [screenPoint, screenPoint, show t.clip r.start = r.start from hs,
    show t.clip r.stop = r.stop from he, hfar, rebase] at hwide
  split_ifs at hwide with hrow
  · obtain ⟨-, hcolumn⟩ := Point.mk.inj hwide
    exact congrArg₂ Point.mk hrow (by omega)
  · obtain ⟨hrow', -⟩ := Point.mk.inj hwide
    omega

end Walk

namespace Editor

variable {e : Editor} {r : Range} {others : List Range} {width : Nat}

/-- The extent of a range that is folded into pieces, among other folds that respect it. -/
theorem Kept.hasBreadth (h : e.Kept) (hs : e.text.Addressable r.start)
    (he : e.text.Addressable r.stop) (hw : 0 < width) (hwl : width ≤ (e.text.slice r).visualLength)
    (hperm : e.folds.values.Perm (others ++ PartialFold.pieces e.text r width))
    (hothers : ∀ q ∈ others, q.respects r = true) :
    (e.screenRange r).HasBreadth (Range.breadth others r width) := by
  have hr := PartialFold.start_le_stop_of_width hs he (Nat.lt_of_lt_of_le hw hwl)
  have hin : ∀ f ∈ PartialFold.pieces e.text r width,
      r.start ≤ f.start ∧ f.start < f.stop ∧ f.stop ≤ r.stop :=
    fun f hf => (PartialFold.laid_pieces hs he hw hwl f hf).2
  obtain ⟨b, hlaid⟩ := exists_laid_effectiveFolds h.ordered
  have hmem : ∀ q ∈ others, q ∈ e.folds.values := fun q hq =>
    hperm.mem_iff.2 (List.mem_append_left _ hq)
  show e.screenPoint r.stop = ⟨(e.screenPoint r.start).row, (e.screenPoint r.start).column + _⟩
  unfold Range.breadth
  split_ifs with hburied hcovered
  · -- a fold reaches past the stop
    obtain ⟨q, hq, hqr⟩ := List.any_eq_true.1 hburied
    obtain ⟨hstart, hstop⟩ : q.start ≤ r.start ∧ r.stop < q.stop := of_decide_eq_true hqr
    have hpoint : (e.screenRange r).isPoint = true := by
      rw [h.isPoint_screenRange hs he hr]
      exact fun x hx hx' => ⟨q, hmem q hq, lt_of_le_of_lt hstart hx, lt_of_le_of_lt hx' hstop⟩
    exact (beq_iff_eq.1 hpoint).symm
  · -- a fold ends with the range, and none reaches past it
    obtain ⟨q, hq, hqr⟩ := List.any_eq_true.1 hcovered
    obtain ⟨hstart, hstop⟩ : q.start ≤ r.start ∧ r.stop ≤ q.stop := of_decide_eq_true hqr
    have hlt : q.start < q.stop := lt_of_le_of_lt hstart (lt_of_lt_of_le hr hstop)
    obtain ⟨g, hg, hgstart, hgstop⟩ := exists_effectiveFolds_of_mem (hmem q hq) hlt
    have hends : g.stop = r.stop := by
      rcases eq_or_lt_of_le (le_trans hstop hgstop) with heq | hpast
      · exact heq.symm
      · obtain ⟨f, hf, hfstart, hfstop⟩ := inside_effectiveFolds_iff.1
          ⟨g, hg, lt_of_le_of_lt (le_trans hgstart hstart) hr, hpast⟩
        have hle := stop_le_of_respects hr hothers (fun f hf => (hin f hf).2.2) hburied
          (hperm.mem_iff.1 hf) hfstart
        exact absurd (lt_of_lt_of_le hfstop hle) (Point.lt_irrefl _)
    rw [screenPoint_of_addressable hs, screenPoint_of_addressable he, ← hends]
    exact screenFrom_stop_of_covered hlaid hg (le_trans hgstart hstart) (hends ▸ hr) _
  · -- every other fold stands apart from the range
    have hapart : ∀ f ∈ others, f.start < f.stop → f.stop ≤ r.start ∨ r.stop ≤ f.start := by
      intro f hf _
      refine (respects_iff.1 (hothers f hf)).resolve_right fun hcovers => hcovered ?_
      exact List.any_eq_true.2 ⟨f, hf, hcovers⟩
    rw [screenPoint_of_addressable hs, screenPoint_of_addressable he,
      screenFrom_stop (fun f hf => h.ordered f (hmem f hf)) hapart hin (le_of_lt hr) hperm,
      screenFrom_pieces hs he hw hwl, rebase, if_pos rfl]

end Editor

end TemplateFolding
