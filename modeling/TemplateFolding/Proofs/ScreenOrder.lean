import TemplateFolding.Proofs.ExactWidth
import TemplateFolding.Proofs.ScreenGeometry

/-!
# The order of positions on the screen

What stands later in the buffer is drawn no earlier on the screen, and two positions are drawn at
one place exactly when one drawn fold covers both. Where the drawn folds come from the folds of an
editor this becomes a statement about the folds themselves: a range is collapsed to a point when
every position after its start, its stop included, lies strictly inside some fold.

Where a position is drawn depends on the folds in front of it only, and how far the stop of a range
is drawn from its start depends on the folds inside the range only.
-/

namespace TemplateFolding

open Text Point Range

/-! ## Reckoning without folds -/

namespace Point

variable {a p q s : Point}

lemma lt_irrefl (p : Point) : ¬p < p := by
  rw [lt_iff]
  omega

/-- On the row of the start only the column moves. -/
lemma carry_of_row (h : p.row = a.row) (s : Point) :
    a.carry s p = ⟨s.row, s.column + (p.column - a.column)⟩ := if_pos h

/-- On a later row the column is that in the buffer. -/
lemma carry_of_row_lt (h : a.row < p.row) (s : Point) :
    a.carry s p = ⟨s.row + (p.row - a.row), p.column⟩ := if_neg (Nat.ne_of_gt h)

@[simp] lemma carry_self (a s : Point) : a.carry s a = s := by
  rw [carry_of_row rfl, Nat.sub_self, Nat.add_zero]

/-- Carrying on from a point on the way leads to the same place. -/
lemma carry_carry (hap : a ≤ p) (hpq : p ≤ q) (s : Point) :
    p.carry (a.carry s p) q = a.carry s q := by
  rcases hap with hap | ⟨hap, hap'⟩ <;> rcases hpq with hpq | ⟨hpq, hpq'⟩
  · rw [carry_of_row_lt hap, carry_of_row_lt hpq, carry_of_row_lt (by omega)]
    simp only [Point.mk.injEq, and_true]
    omega
  · rw [carry_of_row_lt hap, carry_of_row hpq.symm, carry_of_row_lt (by omega)]
    simp only [Point.mk.injEq]
    omega
  · rw [carry_of_row hap.symm, carry_of_row_lt hpq, carry_of_row_lt (by omega)]
    simp only [Point.mk.injEq, and_true]
    omega
  · rw [carry_of_row hap.symm, carry_of_row hpq.symm, carry_of_row (by omega)]
    simp only [Point.mk.injEq, true_and]
    omega

/-- Without folds, what is further on in the buffer is further on the screen. -/
lemma carry_lt_carry (hap : a ≤ p) (hpq : p < q) (s : Point) : a.carry s p < a.carry s q := by
  rw [le_iff] at hap
  rw [lt_iff] at hpq
  simp only [carry, lt_iff]
  split_ifs <;> dsimp only <;> omega

lemma carry_le_carry (hap : a ≤ p) (hpq : p ≤ q) (s : Point) : a.carry s p ≤ a.carry s q := by
  rcases eq_or_lt_of_le hpq with rfl | hlt
  · exact le_refl _
  · exact le_of_lt (carry_lt_carry hap hlt s)

lemma le_carry (hap : a ≤ p) (s : Point) : s ≤ a.carry s p := by
  simpa using carry_le_carry (le_refl a) hap s

lemma row_carry_of_row (hpq : p.row = q.row) (a s : Point) :
    (a.carry s p).row = (a.carry s q).row := by
  simp only [carry, hpq]
  split_ifs <;> rfl

/-- Reckoning from another place on the screen displaces the result. -/
lemma carry_eq_rebase (hap : a ≤ p) (s : Point) : a.carry s p = s.rebase (a.carry .origin p) := by
  rcases hap with hap | ⟨hap, -⟩
  · rw [carry_of_row_lt hap, carry_of_row_lt hap, rebase, if_neg (by simp [origin]; omega)]
    simp [origin]
  · rw [carry_of_row hap.symm, carry_of_row hap.symm]
    simp [rebase, origin]

/-- One column further is one column further, wherever the origin is drawn. -/
lemma rebase_succ (s p : Point) :
    (⟨(s.rebase p).row, (s.rebase p).column + 1⟩ : Point) = s.rebase ⟨p.row, p.column + 1⟩ := by
  simp only [rebase]
  split_ifs <;> simp [Nat.add_assoc]

end Point

/-! ## Past a fold -/

section Walk

variable {a b p q s : Point} {f : Range} {l l₁ l₂ : List Range}

/-- In front of the first fold one reckons without folds. -/
lemma screenFrom_before (h : p ≤ f.start) (a s : Point) (l : List Range) :
    screenFrom p a s (f :: l) = a.carry s p := by
  rw [screenFrom, if_pos h]

/-- Everything inside a fold is drawn where the fold starts. -/
lemma screenFrom_inside (h : f.start < p) (h' : p < f.stop) (a s : Point) (l : List Range) :
    screenFrom p a s (f :: l) = a.carry s f.start := by
  rw [screenFrom, if_neg (Point.not_le.2 h), if_pos h']

/-- Behind a fold one reckons on from its end, one column behind its start. -/
lemma screenFrom_after (h : f.start < f.stop) (h' : f.stop ≤ p) (a s : Point) (l : List Range) :
    screenFrom p a s (f :: l) =
      screenFrom p f.stop ⟨(a.carry s f.start).row, (a.carry s f.start).column + 1⟩ l := by
  rw [screenFrom, if_neg (Point.not_le.2 (lt_of_lt_of_le h h')), if_neg (Point.not_lt.2 h')]

/-- A position stands before a fold, inside it or after it. -/
lemma cases_fold (p : Point) (f : Range) :
    p ≤ f.start ∨ (f.start < p ∧ p < f.stop) ∨ f.stop ≤ p := by
  simp only [lt_iff, le_iff]
  omega

/-- Nothing is drawn before the start, whatever is folded. -/
lemma le_screenFrom (h : Laid a b l) (hap : a ≤ p) (s : Point) : s ≤ screenFrom p a s l := by
  induction l generalizing a s with
  | nil => exact le_carry hap s
  | cons f l ih =>
    obtain ⟨haf, hf, hl⟩ := h
    rcases cases_fold p f with hp | ⟨hp, hp'⟩ | hp
    · rw [screenFrom_before hp]
      exact le_carry hap s
    · rw [screenFrom_inside hp hp']
      exact le_carry haf s
    · rw [screenFrom_after hf hp]
      have hnext : s ≤ ⟨(a.carry s f.start).row, (a.carry s f.start).column + 1⟩ :=
        le_trans (le_carry haf s) (Or.inr ⟨rfl, Nat.le_succ _⟩)
      exact le_trans hnext (ih hl hp _)

lemma screenFrom_self (h : Laid a b l) (s : Point) : screenFrom a a s l = s := by
  cases l with
  | nil => exact carry_self a s
  | cons f l => rw [screenFrom_before h.1, carry_self]

/-- Two positions that no fold covers together are drawn in their order. -/
lemma screenFrom_lt (h : Laid a b l) (hap : a ≤ p) (hpq : p < q)
    (hfree : ∀ f ∈ l, f.start ≤ p → ¬q < f.stop) (s : Point) :
    screenFrom p a s l < screenFrom q a s l := by
  induction l generalizing a s with
  | nil => exact carry_lt_carry hap hpq s
  | cons f l ih =>
    obtain ⟨haf, hf, hl⟩ := h
    have hfree' : ∀ g ∈ l, g.start ≤ p → ¬q < g.stop := fun g hg =>
      hfree g (List.mem_cons_of_mem _ hg)
    -- what is drawn after the placeholder
    have hbeyond : f.stop ≤ q → a.carry s f.start < screenFrom q a s (f :: l) := by
      intro hq
      rw [screenFrom_after hf hq]
      have hnext : a.carry s f.start < ⟨(a.carry s f.start).row, (a.carry s f.start).column + 1⟩ :=
        Or.inr ⟨rfl, Nat.lt_succ_self _⟩
      exact lt_of_lt_of_le hnext (le_screenFrom hl hq _)
    rcases cases_fold q f with hq | ⟨hq, hq'⟩ | hq
    · rw [screenFrom_before hq, screenFrom_before (le_trans (le_of_lt hpq) hq)]
      exact carry_lt_carry hap hpq s
    · have hpf : p < f.start := by
        by_contra hge
        exact hfree f (by simp) (Point.not_lt.1 hge) hq'
      rw [screenFrom_inside hq hq', screenFrom_before (le_of_lt hpf)]
      exact carry_lt_carry hap hpf s
    · rcases cases_fold p f with hp | ⟨hp, hp'⟩ | hp
      · rw [screenFrom_before hp]
        exact lt_of_le_of_lt (carry_le_carry hap hp s) (hbeyond hq)
      · rw [screenFrom_inside hp hp']
        exact hbeyond hq
      · rw [screenFrom_after hf hp, screenFrom_after hf hq]
        exact ih hl hp hfree' _

/-- A fold is drawn at one point, its end excepted. -/
lemma screenFrom_eq (h : Laid a b l) (hf : f ∈ l) (hp : f.start ≤ p) (hpq : p ≤ q)
    (hq : q < f.stop) (s : Point) : screenFrom p a s l = screenFrom q a s l := by
  obtain ⟨l₁, l₂, rfl⟩ := List.append_of_mem hf
  rw [screenFrom_covered h.split.1 hp (lt_of_le_of_lt hpq hq),
    screenFrom_covered h.split.1 (le_trans hp hpq) hq]

/-- Positions are drawn at one place exactly when one fold covers both. -/
lemma screenFrom_eq_iff (h : Laid a b l) (hap : a ≤ p) (hpq : p < q) (s : Point) :
    screenFrom p a s l = screenFrom q a s l ↔ ∃ f ∈ l, f.start ≤ p ∧ q < f.stop := by
  constructor
  · intro heq
    by_contra hcon
    push Not at hcon
    have hlt := screenFrom_lt h hap hpq (fun f hf hp => hcon f hf hp) s
    exact lt_irrefl _ (heq ▸ hlt)
  · rintro ⟨f, hf, hp, hq⟩
    exact screenFrom_eq h hf hp (le_of_lt hpq) hq s

/-- With folds too, what is further on in the buffer is not further back on the screen. -/
lemma screenFrom_le (h : Laid a b l) (hap : a ≤ p) (hpq : p ≤ q) (s : Point) :
    screenFrom p a s l ≤ screenFrom q a s l := by
  rcases eq_or_lt_of_le hpq with rfl | hlt
  · exact le_refl _
  · by_cases hcov : ∃ f ∈ l, f.start ≤ p ∧ q < f.stop
    · rw [(screenFrom_eq_iff h hap hlt s).2 hcov]
      exact le_refl _
    · push Not at hcov
      exact le_of_lt (screenFrom_lt h hap hlt (fun f hf hp => hcov f hf hp) s)

/-! ## Rows -/

/-- Positions of one row of the buffer are drawn on one row. -/
lemma row_screenFrom_of_row (h : Laid a b l) (hap : a ≤ p) (hpq : p ≤ q) (hrow : p.row = q.row)
    (s : Point) : (screenFrom p a s l).row = (screenFrom q a s l).row := by
  induction l generalizing a p s with
  | nil => exact row_carry_of_row hrow a s
  | cons f l ih =>
    obtain ⟨haf, hf, hl⟩ := h
    rcases cases_fold q f with hq | ⟨hq, hq'⟩ | hq
    · rw [screenFrom_before hq, screenFrom_before (le_trans hpq hq)]
      exact row_carry_of_row hrow a s
    · rw [screenFrom_inside hq hq']
      rcases cases_fold p f with hp | ⟨hp, hp'⟩ | hp
      · -- the start of the fold lies between the two positions, so it is on their row
        have hstart : p.row = f.start.row := by
          simp only [lt_iff, le_iff] at hp hq
          omega
        rw [screenFrom_before hp]
        exact row_carry_of_row hstart a s
      · rw [screenFrom_inside hp hp']
      · exact absurd (lt_of_le_of_lt (le_trans hp hpq) hq') (lt_irrefl _)
    · rw [screenFrom_after hf hq]
      by_cases hp : f.stop ≤ p
      · rw [screenFrom_after hf hp]
        exact ih hl hp hpq hrow _
      · -- the stop of the fold lies between the two positions, and so does its start if `p` is in
        -- front of it
        have hp := Point.not_le.1 hp
        have hstop : f.stop.row = q.row := by
          simp only [lt_iff, le_iff] at hp hq
          omega
        rw [← ih hl (le_refl _) hq hstop, screenFrom_self hl]
        rcases cases_fold p f with hp' | ⟨hp', -⟩ | hp'
        · have hstart : p.row = f.start.row := by
            simp only [lt_iff, le_iff] at hp hp' hf
            omega
          rw [screenFrom_before hp']
          exact row_carry_of_row hstart a s
        · rw [screenFrom_inside hp' hp]
        · exact absurd (lt_of_lt_of_le hp hp') (lt_irrefl _)

/-- A fold with its two ends is drawn on one row. -/
lemma row_screenFrom_of_covered (h : Laid a b l) (hf : f ∈ l) (hp : f.start ≤ p) (hpq : p ≤ q)
    (hq : q ≤ f.stop) (s : Point) : (screenFrom p a s l).row = (screenFrom q a s l).row := by
  have hends : (screenFrom f.start a s l).row = (screenFrom f.stop a s l).row := by
    induction l generalizing a s with
    | nil => simp at hf
    | cons g l ih =>
      obtain ⟨hag, hg, hl⟩ := h
      rcases List.mem_cons.1 hf with rfl | hf
      · rw [screenFrom_before (le_refl _), screenFrom_after hg (le_refl _), screenFrom_self hl]
      · obtain ⟨hgf, hff, -⟩ := hl.mem hf
        rw [screenFrom_after hg hgf, screenFrom_after hg (le_trans hgf (le_of_lt hff))]
        exact ih hl hf _
  have haf := (h.mem hf).1
  have h₁ := screenFrom_le h haf hp s
  have h₂ := screenFrom_le h (le_trans haf hp) hpq s
  have h₃ := screenFrom_le h (le_trans haf (le_trans hp hpq)) hq s
  rw [le_iff] at h₁ h₂ h₃
  omega

/-! ## Cutting the walk -/

/-- The walk can be broken off at a position that no fold covers and resumed there. -/
lemma screenFrom_cut (h₁ : Laid a p l₁) (h₂ : Laid p b l₂) (hpq : p ≤ q) (s : Point) :
    screenFrom q a s (l₁ ++ l₂) = screenFrom q p (screenFrom p a s l₁) l₂ := by
  induction l₁ generalizing a s with
  | nil =>
    have hap : a ≤ p := h₁
    cases l₂ with
    | nil => exact (carry_carry hap hpq s).symm
    | cons f l =>
      obtain ⟨hpf, hf, -⟩ := h₂
      show screenFrom q a s (f :: l) = screenFrom q p (a.carry s p) (f :: l)
      rcases cases_fold q f with hq | ⟨hq, hq'⟩ | hq
      · rw [screenFrom_before hq, screenFrom_before hq, carry_carry hap hpq]
      · rw [screenFrom_inside hq hq', screenFrom_inside hq hq', carry_carry hap hpf]
      · rw [screenFrom_after hf hq, screenFrom_after hf hq, carry_carry hap hpf]
  | cons f l ih =>
    obtain ⟨-, hf, hl⟩ := h₁
    rw [List.cons_append, screenFrom_after hf (le_trans hl.le hpq), screenFrom_after hf hl.le]
    exact ih hl _

/-- Folds at or after a position have no part in where it is drawn. -/
lemma screenFrom_front (h₁ : Laid a p l₁) (h₂ : Laid p b l₂) (s : Point) :
    screenFrom p a s (l₁ ++ l₂) = screenFrom p a s l₁ := by
  rw [screenFrom_cut h₁ h₂ (le_refl p), screenFrom_self h₂]

/-- Where one starts to draw only moves the picture. -/
lemma screenFrom_eq_rebase (h : Laid a b l) (hap : a ≤ p) (s : Point) :
    screenFrom p a s l = s.rebase (screenFrom p a .origin l) := by
  induction l generalizing a s with
  | nil => exact carry_eq_rebase hap s
  | cons f l ih =>
    obtain ⟨haf, hf, hl⟩ := h
    rcases cases_fold p f with hp | ⟨hp, hp'⟩ | hp
    · rw [screenFrom_before hp, screenFrom_before hp]
      exact carry_eq_rebase hap s
    · rw [screenFrom_inside hp hp', screenFrom_inside hp hp']
      exact carry_eq_rebase haf s
    · rw [screenFrom_after hf hp, screenFrom_after hf hp, ih hl hp, carry_eq_rebase haf s,
        rebase_succ, rebase_assoc, ← ih hl hp]

end Walk

/-! ## Drawn folds and the folds they come from -/

namespace Range

variable {f r : Range} {l l' : List Range} {p x : Point}

/-- Different folds of a layout are apart. -/
lemma Laid.apart {a b : Point} (h : Laid a b l) (hf : f ∈ l) (hr : r ∈ l) (hne : f ≠ r) :
    f.stop ≤ r.start ∨ r.stop ≤ f.start := by
  induction l generalizing a with
  | nil => simp at hf
  | cons g l ih =>
    obtain ⟨-, -, hl⟩ := h
    rcases List.mem_cons.1 hf with hfg | hf'
    · rcases List.mem_cons.1 hr with hrg | hr'
      · exact absurd (hfg.trans hrg.symm) hne
      · exact Or.inl (hfg ▸ (hl.mem hr').1)
    · rcases List.mem_cons.1 hr with hrg | hr'
      · exact Or.inr (hrg ▸ (hl.mem hf').1)
      · exact ih hl hf' hr'

/-- A merged range begins where its first range begins. -/
lemma exists_mergeFrom_cons (f : Range) (l : List Range) :
    ∃ g rest, mergeFrom f l = g :: rest ∧ g.start = f.start := by
  induction l generalizing f with
  | nil => exact ⟨f, [], rfl, rfl⟩
  | cons r l ih =>
    rw [mergeFrom]
    split
    · exact ih _
    · exact ⟨f, _, rfl, rfl⟩

/-- Each range lies in one of the merged ones. -/
lemma exists_mergeFrom_of_mem (hr : r ∈ f :: l) (hl : ∀ s ∈ l, f.start ≤ s.start)
    (hpw : l.Pairwise (precedes · · = true)) :
    ∃ g ∈ mergeFrom f l, g.start ≤ r.start ∧ r.stop ≤ g.stop := by
  induction l generalizing f r with
  | nil =>
    obtain rfl : r = f := by simpa using hr
    exact ⟨r, by simp [mergeFrom], le_refl _, le_refl _⟩
  | cons s l ih =>
    obtain ⟨hsl, hpw⟩ := List.pairwise_cons.1 hpw
    have hfl : ∀ q ∈ l, f.start ≤ q.start := fun q hq => hl q (List.mem_cons_of_mem _ hq)
    have hsl' : ∀ q ∈ l, s.start ≤ q.start := fun q hq => start_le_of_precedes (hsl q hq)
    rw [mergeFrom]
    split
    · -- `f` and `s` are taken up by one range, which the others are merged with
      obtain ⟨g, hg, hgs, hge⟩ := ih
        (f := ⟨f.start, if f.stop < s.stop then s.stop else f.stop⟩) List.mem_cons_self hfl hpw
      have hfg : f.stop ≤ g.stop := by
        refine le_trans ?_ hge
        dsimp only
        split_ifs with hlt
        · exact le_of_lt hlt
        · exact le_refl _
      have hsg : s.stop ≤ g.stop := by
        refine le_trans ?_ hge
        dsimp only
        split_ifs with hlt
        · exact le_refl _
        · exact Point.not_lt.1 hlt
      rcases List.mem_cons.1 hr with rfl | hr
      · exact ⟨g, hg, hgs, hfg⟩
      · rcases List.mem_cons.1 hr with rfl | hr
        · exact ⟨g, hg, le_trans hgs (hl r (by simp)), hsg⟩
        · exact ih (List.mem_cons_of_mem _ hr) hfl hpw
    · rcases List.mem_cons.1 hr with rfl | hr
      · exact ⟨r, by simp, le_refl _, le_refl _⟩
      · obtain ⟨g, hg, hge⟩ := ih hr hsl' hpw
        exact ⟨g, List.mem_cons_of_mem _ hg, hge⟩

/-- What lies strictly inside a merged range lies strictly inside one it was merged from. -/
lemma exists_of_inside_mergeFrom (h : ∃ g ∈ mergeFrom f l, g.start < x ∧ x < g.stop) :
    ∃ g ∈ f :: l, g.start < x ∧ x < g.stop := by
  induction l generalizing f with
  | nil => simpa [mergeFrom] using h
  | cons s l ih =>
    rw [mergeFrom] at h
    split at h
    · rename_i hover
      obtain ⟨g, hg, hgx, hxg⟩ := ih h
      rcases List.mem_cons.1 hg with rfl | hg
      · by_cases hx : x < f.stop
        · exact ⟨f, by simp, hgx, hx⟩
        · refine ⟨s, by simp, lt_of_lt_of_le hover (Point.not_lt.1 hx), ?_⟩
          simp only at hxg
          split at hxg
          · exact hxg
          · exact absurd hxg hx
      · exact ⟨g, by simp [hg], hgx, hxg⟩
    · obtain ⟨g, hg, hgx⟩ := h
      rcases List.mem_cons.1 hg with rfl | hg
      · exact ⟨g, by simp, hgx⟩
      · obtain ⟨g, hg, hgx⟩ := ih ⟨g, hg, hgx⟩
        exact ⟨g, List.mem_cons_of_mem _ hg, hgx⟩

end Range

section Drawn

variable {l l' : List Range} {f : Range} {a b p q x : Point}

/-- Folds from a point on are drawn one after the other from that point on. -/
lemma exists_laid_from (h : ∀ r ∈ l, r.start ≤ r.stop ∧ (r.start < r.stop → a ≤ r.start)) :
    ∃ b, Laid a b (effectiveFolds l) := by
  obtain ⟨n, hn⟩ : ∃ n, ∀ r ∈ l, r.stop.row < n := by
    clear h
    induction l with
    | nil => exact ⟨0, by simp⟩
    | cons r l ih =>
      obtain ⟨n, hn⟩ := ih
      refine ⟨max n (r.stop.row + 1), fun s hs => ?_⟩
      rcases List.mem_cons.1 hs with rfl | hs
      · omega
      · have := hn s hs
        omega
  refine ⟨⟨max n (a.row + 1), 0⟩, laid_effectiveFolds (Or.inl ?_) fun r hr => ?_⟩
  · show a.row < max n (a.row + 1)
    omega
  · refine ⟨(h r hr).1, fun hlt => ⟨(h r hr).2 hlt, Or.inl ?_⟩⟩
    have := hn r hr
    show r.stop.row < max n (a.row + 1)
    omega

/-- Folds with their ends in order are drawn one after the other. -/
lemma exists_laid_effectiveFolds (h : ∀ r ∈ l, r.start ≤ r.stop) :
    ∃ b, Laid .origin b (effectiveFolds l) :=
  exists_laid_from fun r hr => ⟨h r hr, fun _ => origin_le _⟩

/-- The folds in the order in which they are merged. -/
lemma exists_sorted_effectiveFolds (l : List Range) :
    effectiveFolds l = [] ∧ (∀ r ∈ l, r.isPoint) ∨
      ∃ f rest, effectiveFolds l = mergeFrom f rest ∧ (∀ s ∈ rest, f.start ≤ s.start) ∧
        rest.Pairwise (precedes · · = true) ∧
        ∀ r, r ∈ f :: rest ↔ r ∈ l ∧ r.isPoint = false := by
  have hmem : ∀ r, r ∈ sort (l.filter (!·.isPoint)) ↔ r ∈ l ∧ r.isPoint = false := by
    intro r
    rw [(sort_perm _).mem_iff, List.mem_filter]
    simp
  have hpw := pairwise_sort (l.filter (!·.isPoint))
  rw [effectiveFolds_eq]
  cases hs : sort (l.filter (!·.isPoint)) with
  | nil =>
    refine Or.inl ⟨rfl, fun r hr => ?_⟩
    by_contra hp
    have := (hmem r).2 ⟨hr, by simpa using hp⟩
    simp [hs] at this
  | cons f rest =>
    rw [hs] at hmem hpw
    obtain ⟨hf, hpw⟩ := List.pairwise_cons.1 hpw
    exact Or.inr ⟨f, rest, rfl, fun s hs => start_le_of_precedes (hf s hs), hpw, hmem⟩

/-- Each fold that is not empty lies in a drawn one. -/
lemma exists_effectiveFolds_of_mem (hf : f ∈ l) (hlt : f.start < f.stop) :
    ∃ g ∈ effectiveFolds l, g.start ≤ f.start ∧ f.stop ≤ g.stop := by
  have hp : f.isPoint = false := (isPoint_eq_false (le_of_lt hlt)).2 hlt
  rcases exists_sorted_effectiveFolds l with ⟨-, hpoints⟩ | ⟨g, rest, heq, hstart, hpw, hmem⟩
  · simp [hpoints f hf] at hp
  · rw [heq]
    exact exists_mergeFrom_of_mem ((hmem f).2 ⟨hf, hp⟩) hstart hpw

/-- A position lies strictly inside a drawn fold exactly when it lies strictly inside a fold. -/
lemma inside_effectiveFolds_iff :
    (∃ g ∈ effectiveFolds l, g.start < x ∧ x < g.stop) ↔ ∃ g ∈ l, g.start < x ∧ x < g.stop := by
  constructor
  · intro h
    rcases exists_sorted_effectiveFolds l with ⟨heq, -⟩ | ⟨f, rest, heq, -, -, hmem⟩
    · simp [heq] at h
    · rw [heq] at h
      obtain ⟨g, hg, hgx⟩ := exists_of_inside_mergeFrom h
      exact ⟨g, ((hmem g).1 hg).1, hgx⟩
  · rintro ⟨f, hf, hfx, hxf⟩
    obtain ⟨g, hg, hgs, hge⟩ :=
      exists_effectiveFolds_of_mem hf (lt_of_lt_of_le hfx (le_of_lt hxf))
    exact ⟨g, hg, lt_of_le_of_lt hgs hfx, lt_of_lt_of_le hxf hge⟩

/-- Every position after `p` up to `q` lies strictly inside a fold. -/
def Buried (l : List Range) (p q : Point) : Prop :=
  ∀ x, p < x → x ≤ q → ∃ f ∈ l, f.start < x ∧ x < f.stop

/-- One drawn fold covers two positions exactly when everything between them is buried. -/
lemma covered_iff_buried (h : ∀ r ∈ l, r.start ≤ r.stop) (hpq : p < q) :
    (∃ f ∈ effectiveFolds l, f.start ≤ p ∧ q < f.stop) ↔ Buried l p q := by
  obtain ⟨b, hlaid⟩ := exists_laid_effectiveFolds h
  constructor
  · rintro ⟨f, hf, hp, hq⟩ x hpx hxq
    exact inside_effectiveFolds_iff.1 ⟨f, hf, lt_of_le_of_lt hp hpx, lt_of_le_of_lt hxq hq⟩
  · intro hb
    obtain ⟨f, hf, hfq, hqf⟩ := inside_effectiveFolds_iff.2 (hb q hpq (le_refl q))
    refine ⟨f, hf, ?_, hqf⟩
    by_contra hp
    -- the start of the fold would lie strictly inside another drawn fold
    obtain ⟨g, hg, hgf, hfg⟩ :=
      inside_effectiveFolds_iff.2 (hb f.start (Point.not_le.1 hp) (le_of_lt hfq))
    have hne : g ≠ f := by
      rintro rfl
      exact lt_irrefl _ hgf
    rcases hlaid.apart hg hf hne with hle | hle
    · exact lt_irrefl _ (lt_of_lt_of_le hfg hle)
    · exact lt_irrefl _ (lt_of_le_of_lt hle (lt_of_lt_of_le hgf (le_of_lt (hlaid.mem hf).2.1)))

/-! ## Folds in front of a position -/

/-- Merging with ranges that start at `p` or after it does not matter to where `p` is drawn. -/
lemma screenFrom_mergeFrom (hl : ∀ r ∈ l, p ≤ r.start) (hf : f.start < p) (a s : Point) :
    screenFrom p a s (mergeFrom f l) = screenFrom p a s [f] := by
  induction l generalizing f with
  | nil => rfl
  | cons r l ih =>
    have hpr := hl r (by simp)
    have hrest : ∀ q ∈ l, p ≤ q.start := fun q hq => hl q (List.mem_cons_of_mem _ hq)
    by_cases hover : r.start < f.stop
    · -- `p` lies inside the merged range as it lies inside `f`
      have hpf : p < f.stop := lt_of_le_of_lt hpr hover
      have hmax : p < if f.stop < r.stop then r.stop else f.stop := by
        split_ifs with hlt
        · exact lt_of_lt_of_le hpf (le_of_lt hlt)
        · exact hpf
      rw [mergeFrom, if_pos hover, screenFrom_inside hf hpf]
      refine (ih ?_ ?_).trans (screenFrom_inside ?_ hmax a s [])
      · exact hrest
      · exact hf
      · exact hf
    · obtain ⟨g, rest, hg, hstart⟩ := exists_mergeFrom_cons r l
      rw [mergeFrom, if_neg hover, hg, screenFrom, screenFrom]
      split_ifs
      · rfl
      · rfl
      · rw [screenFrom_before (hstart ▸ hpr), screenFrom]

/-- Folds behind a position have no part in where it is drawn, also while folds are being merged. -/
lemma screenFrom_mergeFrom_append (hl' : ∀ r ∈ l', p ≤ r.start) (hf : f.start < p)
    (hl : ∀ r ∈ l, r.start < p) (a s : Point) :
    screenFrom p a s (mergeFrom f (l ++ l')) = screenFrom p a s (mergeFrom f l) := by
  induction l generalizing f a s with
  | nil => exact screenFrom_mergeFrom hl' hf a s
  | cons r l ih =>
    have hrest : ∀ q ∈ l, q.start < p := fun q hq => hl q (List.mem_cons_of_mem _ hq)
    by_cases hover : r.start < f.stop
    · rw [List.cons_append, mergeFrom, mergeFrom, if_pos hover, if_pos hover]
      exact ih (f := ⟨f.start, if f.stop < r.stop then r.stop else f.stop⟩) hf hrest a s
    · rw [List.cons_append, mergeFrom, mergeFrom, if_neg hover, if_neg hover, screenFrom, screenFrom]
      split_ifs
      · rfl
      · rfl
      · exact ih (hl r (by simp)) hrest _ _

/-- Where a position is drawn depends on the folds that start in front of it. -/
lemma screenFrom_filter (l : List Range) (p a s : Point) :
    screenFrom p a s (effectiveFolds (l.filter fun f => decide (f.start < p))) =
      screenFrom p a s (effectiveFolds l) := by
  -- the folds in front of `p` stand first when all of them are sorted
  have hsplit : sort (l.filter (!·.isPoint)) =
      sort ((l.filter fun f => decide (f.start < p)).filter (!·.isPoint)) ++
        sort ((l.filter fun f => !decide (f.start < p)).filter (!·.isPoint)) := by
    rw [← sort_append, ← List.filter_append]
    · exact sort_congr ((List.filter_append_perm _ l).symm.filter _)
    · intro r hr f hf
      have hr := (List.mem_filter.1 (List.mem_filter.1 hr).1).2
      have hf := (List.mem_filter.1 (List.mem_filter.1 hf).1).2
      simp only [decide_eq_true_eq, Bool.not_eq_true', decide_eq_false_iff_not, Point.not_lt]
        at hr hf
      exact precedes_iff.2 (Or.inl (lt_of_lt_of_le hr hf))
  have hfront : ∀ r ∈ sort ((l.filter fun f => decide (f.start < p)).filter (!·.isPoint)),
      r.start < p := by
    intro r hr
    have hr := (List.mem_filter.1 (List.mem_filter.1 ((sort_perm _).mem_iff.1 hr)).1).2
    simpa using hr
  have hback : ∀ r ∈ sort ((l.filter fun f => !decide (f.start < p)).filter (!·.isPoint)),
      p ≤ r.start := by
    intro r hr
    have hr := (List.mem_filter.1 (List.mem_filter.1 ((sort_perm _).mem_iff.1 hr)).1).2
    exact Point.not_lt.1 (by simpa using hr)
  rw [effectiveFolds_eq, effectiveFolds_eq, hsplit]
  cases hs : sort ((l.filter fun f => decide (f.start < p)).filter (!·.isPoint)) with
  | cons f rest =>
    rw [hs] at hfront
    exact (screenFrom_mergeFrom_append hback (hfront f (by simp))
      (fun r hr => hfront r (List.mem_cons_of_mem _ hr)) a s).symm
  | nil =>
    cases hs' : sort ((l.filter fun f => !decide (f.start < p)).filter (!·.isPoint)) with
    | nil => rfl
    | cons r rest =>
      rw [hs'] at hback
      obtain ⟨g, tail, hg, hstart⟩ := exists_mergeFrom_cons r rest
      rw [List.nil_append, merge, merge, hg, screenFrom,
        screenFrom_before (hstart ▸ hback r (by simp))]

/-! ## Folds inside a range -/

/-- A range all of whose line endings are folded is drawn on one row. -/
lemma row_screenFrom_of_lineEndings {t : Text} (ho : ∀ f ∈ l, f.start ≤ f.stop)
    (hp : t.Addressable p) (hq : t.Addressable q) (hpq : p ≤ q)
    (hfolds : ∀ f ∈ PartialFold.lineEndings t ⟨p, q⟩, f ∈ l) :
    (screenFrom p .origin .origin (effectiveFolds l)).row =
      (screenFrom q .origin .origin (effectiveFolds l)).row := by
  obtain ⟨b, hlaid⟩ := exists_laid_effectiveFolds ho
  generalize hn : q.row - p.row = n
  induction n generalizing p with
  | zero =>
    have hrow : p.row = q.row := by
      rw [le_iff] at hpq
      omega
    exact row_screenFrom_of_row hlaid (origin_le _) hpq hrow _
  | succ n ih =>
    have hrow : p.row < q.row := by omega
    have hlast : p.row < t.lastRow := Nat.lt_of_lt_of_le hrow (addressable_iff.1 hq).1
    have hnext : (⟨p.row + 1, 0⟩ : Point) ≤ q := by
      rw [le_iff]
      dsimp only
      omega
    rw [PartialFold.lineEndings_cons hq hrow] at hfolds
    have hlt := lineEnd_lt_next_row hlast
    have hend : p.row = (t.lineEnd p.row).row := by rw [lineEnd_eq (Nat.le_of_lt hlast)]
    -- the line ending is inside a drawn fold, and the row behind it goes on from there
    obtain ⟨g, hg, hgs, hge⟩ := exists_effectiveFolds_of_mem
      (hfolds ⟨t.lineEnd p.row, ⟨p.row + 1, 0⟩⟩ (by simp)) hlt
    rw [row_screenFrom_of_row hlaid (origin_le _) hp.le_lineEnd hend,
      row_screenFrom_of_covered hlaid hg hgs (le_of_lt hlt) hge]
    exact ih (addressable_next_row hlast) hnext
      (fun f hf => hfolds f (List.mem_cons_of_mem _ hf)) (by dsimp only; omega)

/-- How far the stop of a range is drawn from its start depends on the folds inside the range, if
no fold reaches over one of its ends. -/
lemma screenFrom_stop {r : Range} {others inner : List Range} (ho : ∀ f ∈ others, f.start ≤ f.stop)
    (hclear : ∀ f ∈ others, f.start < f.stop → f.stop ≤ r.start ∨ r.stop ≤ f.start)
    (hin : ∀ f ∈ inner, r.start ≤ f.start ∧ f.start < f.stop ∧ f.stop ≤ r.stop)
    (hr : r.start ≤ r.stop) (hperm : l.Perm (others ++ inner)) :
    screenFrom r.stop .origin .origin (effectiveFolds l) =
      (screenFrom r.start .origin .origin (effectiveFolds l)).rebase
        (screenFrom r.stop r.start .origin (effectiveFolds inner)) := by
  have hbefore : ∀ f ∈ foldsBefore r.start others, f.start ≤ f.stop ∧ f.stop ≤ r.start := by
    intro f hf
    obtain ⟨hf, hle⟩ := List.mem_filter.1 hf
    exact ⟨ho f hf, by simpa using hle⟩
  have hafter : ∀ f ∈ foldsAfter r.start others,
      f.start ≤ f.stop ∧ (f.start < f.stop → r.stop ≤ f.start) := by
    intro f hf
    obtain ⟨hf, hle⟩ := List.mem_filter.1 hf
    refine ⟨ho f hf, fun hlt => (hclear f hf hlt).resolve_left ?_⟩
    simpa using hle
  have hsplit : l.Perm (foldsBefore r.start others ++ (inner ++ foldsAfter r.start others)) := by
    refine hperm.trans (((foldsBefore_append_foldsAfter r.start others).symm.append_right _).trans ?_)
    rw [List.append_assoc]
    exact List.perm_append_comm.append_left _
  have hinner : ∀ f ∈ inner ++ foldsAfter r.start others,
      f.start ≤ f.stop ∧ (f.start < f.stop → r.start ≤ f.start) := by
    intro f hf
    rcases List.mem_append.1 hf with hf | hf
    · exact ⟨le_of_lt (hin f hf).2.1, fun _ => (hin f hf).1⟩
    · exact ⟨(hafter f hf).1, fun hlt => le_trans hr ((hafter f hf).2 hlt)⟩
  have hdrawn : effectiveFolds l = effectiveFolds (foldsBefore r.start others) ++
      (effectiveFolds inner ++ effectiveFolds (foldsAfter r.start others)) := by
    rw [effectiveFolds_congr hsplit, effectiveFolds_append (a := r.start)
      (fun f hf _ => (hbefore f hf).2) (fun f hf => (hinner f hf).2),
      effectiveFolds_append (a := r.stop) (fun f hf _ => (hin f hf).2.2)
        (fun f hf => (hafter f hf).2)]
    · exact fun f hf => (hinner f hf).1
    · intro f hf
      rcases List.mem_append.1 hf with hf | hf
      · exact (hbefore f hf).1
      · exact (hinner f hf).1
  have hlaid₁ : Laid .origin r.start (effectiveFolds (foldsBefore r.start others)) :=
    laid_effectiveFolds (origin_le _) fun f hf =>
      ⟨(hbefore f hf).1, fun _ => ⟨origin_le _, (hbefore f hf).2⟩⟩
  have hlaid₂ : Laid r.start r.stop (effectiveFolds inner) :=
    laid_effectiveFolds hr fun f hf =>
      ⟨le_of_lt (hin f hf).2.1, fun _ => ⟨(hin f hf).1, (hin f hf).2.2⟩⟩
  obtain ⟨b, hlaid₃⟩ := exists_laid_from hafter
  rw [hdrawn, screenFrom_cut hlaid₁ (hlaid₂.append hlaid₃) hr, screenFrom_front hlaid₂ hlaid₃,
    screenFrom_front hlaid₁ (hlaid₂.append hlaid₃), screenFrom_eq_rebase hlaid₂ hr]

end Drawn

/-! ## Ranges of an editor -/

/-- Clipping keeps positions in order, if the second one has a row. -/
lemma Text.clip_le_clip {t : Text} {p q : Point} (hpq : p ≤ q) (hq : q.row ≤ t.lastRow) :
    t.clip p ≤ t.clip q := by
  rcases hpq with hrow | ⟨hrow, hcol⟩
  · exact Or.inl (show min p.row t.lastRow < min q.row t.lastRow by omega)
  · refine Or.inr ⟨show min p.row t.lastRow = min q.row t.lastRow by omega, ?_⟩
    show min p.column (t.lineLength (min p.row t.lastRow)) ≤
      min q.column (t.lineLength (min q.row t.lastRow))
    rw [hrow]
    omega

namespace Editor

variable {e e' : Editor} {r : Range} {p q : Point}

lemma Kept.ordered (h : e.Kept) : ∀ f ∈ e.folds.values, f.start ≤ f.stop := by
  intro f hf
  obtain ⟨k, hk⟩ := Table.mem_values_iff.1 hf
  exact h.foldOrder k f hk

/-- A position that can be addressed is drawn where the walk over the folds ends. -/
lemma screenPoint_of_addressable (hp : e.text.Addressable p) :
    e.screenPoint p = screenFrom p .origin .origin (effectiveFolds e.folds.values) := by
  show screenFrom (e.text.clip p) .origin .origin (effectiveFolds e.folds.values) = _
  rw [show e.text.clip p = p from hp]

/-- What stands later is drawn no earlier. -/
lemma Kept.screenPoint_le (h : e.Kept) (hpq : p ≤ q) (hq : q.row ≤ e.text.lastRow) :
    e.screenPoint p ≤ e.screenPoint q := by
  obtain ⟨b, hlaid⟩ := exists_laid_effectiveFolds h.ordered
  exact screenFrom_le hlaid (origin_le _) (clip_le_clip hpq hq) _

/-- Where the ends of a range are drawn on one row, all of it is drawn on that row. -/
lemma Kept.row_screenPoint (h : e.Kept) (hstop : r.stop.row ≤ e.text.lastRow)
    (hflat : (e.screenRange r).start.row = (e.screenRange r).stop.row) (hp : r.contains p) :
    (e.screenPoint p).row = (e.screenRange r).start.row := by
  obtain ⟨hstart, hle⟩ : r.start ≤ p ∧ p ≤ r.stop := by simpa [Range.contains] using hp
  have hprow : p.row ≤ e.text.lastRow := by
    rw [le_iff] at hle
    omega
  have h₁ : (e.screenRange r).start ≤ e.screenPoint p := h.screenPoint_le hstart hprow
  have h₂ : e.screenPoint p ≤ (e.screenRange r).stop := h.screenPoint_le hle hstop
  rw [le_iff] at h₁ h₂
  omega

/-- A range is drawn as a point exactly when everything after its start is buried. -/
lemma Kept.isPoint_screenRange (h : e.Kept) (hs : e.text.Addressable r.start)
    (he : e.text.Addressable r.stop) (hlt : r.start < r.stop) :
    (e.screenRange r).isPoint = true ↔ Buried e.folds.values r.start r.stop := by
  obtain ⟨b, hlaid⟩ := exists_laid_effectiveFolds h.ordered
  rw [← covered_iff_buried h.ordered hlt, ← screenFrom_eq_iff hlaid (origin_le _) hlt .origin,
    ← screenPoint_of_addressable hs, ← screenPoint_of_addressable he]
  exact beq_iff_eq

/-- **Order on the screen.** A later position is drawn no earlier, and at the same place exactly
when one drawn fold covers both positions, its start included and its stop not. -/
theorem screenPoint_le_and_eq_iff_covered (he : e.Reachable) (hp : e.text.Addressable p)
    (hq : e.text.Addressable q) (hpq : p < q) :
    e.screenPoint p ≤ e.screenPoint q ∧
      (e.screenPoint p = e.screenPoint q ↔ ∃ f ∈ effectiveFolds e.folds.values,
        (f.start ≤ p ∧ p < f.stop) ∧ f.start ≤ q ∧ q < f.stop) := by
  obtain ⟨b, hlaid⟩ := exists_laid_effectiveFolds he.kept.ordered
  rw [screenPoint_of_addressable hp, screenPoint_of_addressable hq]
  refine ⟨screenFrom_le hlaid (origin_le p) (le_of_lt hpq) _, ?_⟩
  rw [screenFrom_eq_iff hlaid (origin_le p) hpq]
  constructor
  · rintro ⟨f, hf, hstart, hstop⟩
    exact ⟨f, hf, ⟨hstart, lt_of_lt_of_le hpq (le_of_lt hstop)⟩,
      le_trans hstart (le_of_lt hpq), hstop⟩
  · rintro ⟨f, hf, ⟨hstart, -⟩, -, hstop⟩
    exact ⟨f, hf, hstart, hstop⟩

/-- A fold across a CRLF line ending and another one right behind it, whose stop an edit has left
past the end of its row: the two positions of the first fold are drawn at one place, its stop is
drawn behind them. -/
theorem screenPoint_le_and_eq_iff_covered_joined :
    let e : Editor := runAll { text := "ab\r\ncd\rx\ne".toList }
      [.fold ⟨⟨0, 1⟩, ⟨1, 1⟩⟩, .fold ⟨⟨1, 1⟩, ⟨1, 3⟩⟩, .replace ⟨⟨1, 3⟩, ⟨1, 4⟩⟩ []]
    (e.text.Addressable ⟨0, 1⟩ ∧ e.text.Addressable ⟨1, 0⟩ ∧ e.text.Addressable ⟨1, 1⟩ ∧
      ¬e.text.Addressable ⟨1, 3⟩ ∧ (⟨⟨1, 1⟩, ⟨1, 3⟩⟩ : Range) ∈ e.folds.values) ∧
    e.screenPoint ⟨0, 1⟩ = e.screenPoint ⟨1, 0⟩ ∧ e.screenPoint ⟨1, 0⟩ ≠ e.screenPoint ⟨1, 1⟩ := by
  intro e
  have he : e.Reachable := ⟨_, _, _, rfl⟩
  have hsame := screenPoint_le_and_eq_iff_covered (p := ⟨0, 1⟩) (q := ⟨1, 0⟩) he (by decide)
    (by decide) (by decide)
  have hnext := screenPoint_le_and_eq_iff_covered (p := ⟨1, 0⟩) (q := ⟨1, 1⟩) he (by decide)
    (by decide) (by decide)
  refine ⟨by decide, hsame.2.2 (by decide), ?_⟩
  rw [ne_eq, hnext.2]
  decide

/-- Where a position is drawn is the same for editors with the same folds in front of it. -/
lemma screenPoint_congr (hp : e.text.Addressable p) (hp' : e'.text.Addressable p)
    (h : e'.folds.filter (fun _ f => decide (f.start < p)) =
      e.folds.filter fun _ f => decide (f.start < p)) :
    e'.screenPoint p = e.screenPoint p := by
  have hvalues : ∀ t : Table Range, (t.filter fun _ f => decide (f.start < p)).values =
      t.values.filter fun f => decide (f.start < p) := by
    intro t
    simp only [Table.values, Table.filter, List.filter_map]
    rfl
  have hfront := congrArg Table.values h
  rw [hvalues, hvalues] at hfront
  rw [screenPoint_of_addressable hp, screenPoint_of_addressable hp',
    ← screenFrom_filter e.folds.values, ← screenFrom_filter e'.folds.values, hfront]

end Editor

end TemplateFolding
