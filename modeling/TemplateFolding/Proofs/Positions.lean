import Mathlib.Tactic.Common
import TemplateFolding.Text.Rows

/-!
# Positions and offsets

A position of a text is *addressable* when clipping leaves it alone, and an offset is a *cut* when
it does not separate a carriage return from the line feed after it. The two are the same thing in
two coordinate systems: `Text.offset` and `Text.pointAt` are inverse to each other between
addressable positions and cuts, and both keep the order.

Everything about folds on the screen is reckoned in offsets and carried back along this
correspondence.
-/

namespace TemplateFolding

/-! ## The order of points -/

namespace Point

variable {p q r : Point}

lemma le_refl (p : Point) : p ≤ p := Or.inr ⟨rfl, Nat.le_refl _⟩

lemma le_trans (h₁ : p ≤ q) (h₂ : q ≤ r) : p ≤ r := by
  rw [le_iff] at *
  omega

lemma lt_of_lt_of_le (h₁ : p < q) (h₂ : q ≤ r) : p < r := by
  rw [lt_iff, le_iff] at *
  omega

lemma lt_of_le_of_lt (h₁ : p ≤ q) (h₂ : q < r) : p < r := by
  rw [lt_iff, le_iff] at *
  omega

lemma le_of_lt (h : p < q) : p ≤ q := by
  rw [lt_iff, le_iff] at *
  omega

/-- The order is total: what is not before a point is at it or after it. -/
lemma not_lt : ¬ p < q ↔ q ≤ p := by
  rw [lt_iff, le_iff]
  omega

lemma not_le : ¬ p ≤ q ↔ q < p := by
  rw [lt_iff, le_iff]
  omega

lemma le_antisymm (h₁ : p ≤ q) (h₂ : q ≤ p) : p = q := by
  rw [le_iff] at h₁ h₂
  cases p
  cases q
  simp only [mk.injEq] at *
  omega

lemma eq_or_lt_of_le (h : p ≤ q) : p = q ∨ p < q := by
  by_cases hlt : p < q
  · exact Or.inr hlt
  · exact Or.inl (le_antisymm h (not_lt.1 hlt))

lemma origin_le (p : Point) : origin ≤ p := by
  rw [le_iff]
  simp only [origin]
  omega

/-! ## Laying text out from a point -/

/-- Positions relative to positions: `rebase` is associative. -/
lemma rebase_assoc (p q r : Point) : (p.rebase q).rebase r = p.rebase (q.rebase r) := by
  simp only [rebase]
  split_ifs <;> simp_all <;> omega

end Point

namespace Text

open Point

/-- Laying out two texts one after the other is laying out both together. -/
lemma pointAfter_append (p : Point) (u v : Text) :
    pointAfter p (u ++ v) = pointAfter (pointAfter p u) v := by
  induction u generalizing p with
  | nil => rfl
  | cons c u ih =>
    simp only [List.cons_append, pointAfter]
    split <;> exact ih _

/-- A text laid out from `p` on ends where it ends from the origin on, seen from `p`. -/
lemma pointAfter_eq_rebase (p : Point) (u : Text) :
    pointAfter p u = p.rebase (pointAfter origin u) := by
  induction u generalizing p with
  | nil => rfl
  | cons c u ih =>
    by_cases hc : c = '\n'
    · rw [pointAfter, pointAfter, if_pos hc, if_pos hc, ih, ih ⟨origin.row + 1, 0⟩, ← rebase_assoc]
      rfl
    · rw [pointAfter, pointAfter, if_neg hc, if_neg hc, ih, ih ⟨origin.row, origin.column + 1⟩,
        ← rebase_assoc]
      rfl

/-- From the start of a row on, only the row differs. -/
lemma pointAfter_rowStart (row : Nat) (u : Text) :
    pointAfter ⟨row, 0⟩ u = ⟨row + (pointAfter origin u).row, (pointAfter origin u).column⟩ := by
  rw [pointAfter_eq_rebase, rebase]
  split_ifs with h <;> simp [h]

/-- Laying text out never leads back. -/
lemma le_pointAfter (p : Point) (u : Text) : p ≤ pointAfter p u := by
  induction u generalizing p with
  | nil => exact le_refl p
  | cons c u ih =>
    rw [pointAfter]
    split
    · exact le_trans (Or.inl (Nat.lt_succ_self _)) (ih _)
    · have h : p ≤ ⟨p.row, p.column + 1⟩ := Or.inr ⟨rfl, Nat.le_succ _⟩
      exact le_trans h (ih _)

/-- Every character advances the position. -/
lemma lt_pointAfter (p : Point) {u : Text} (h : u ≠ []) : p < pointAfter p u := by
  cases u with
  | nil => exact absurd rfl h
  | cons c u =>
    rw [pointAfter]
    split
    · exact lt_of_lt_of_le (Or.inl (Nat.lt_succ_self _)) (le_pointAfter _ u)
    · have h : p < ⟨p.row, p.column + 1⟩ := Or.inr ⟨rfl, Nat.lt_succ_self _⟩
      exact lt_of_lt_of_le h (le_pointAfter _ u)

/-- Text without line feeds stays on its row. -/
lemma pointAfter_of_notMem {u : Text} (h : '\n' ∉ u) (p : Point) :
    pointAfter p u = ⟨p.row, p.column + u.length⟩ := by
  induction u generalizing p with
  | nil => rfl
  | cons c u ih =>
    rw [List.mem_cons, not_or] at h
    rw [pointAfter, if_neg (Ne.symm h.1), ih h.2]
    simp only [List.length_cons, Point.mk.injEq, true_and]
    omega

/-! ## Addressable positions and cuts -/

/-- Whether a position stands on a row of the text and not beyond its end. -/
def Addressable (t : Text) (p : Point) : Prop :=
  t.clip p = p

instance (t : Text) (p : Point) : Decidable (t.Addressable p) :=
  inferInstanceAs (Decidable (_ = _))

/-- Two texts meet cleanly when no carriage return and line feed come together. -/
def CleanSeam (u v : Text) : Prop :=
  ¬(u.getLast? = some '\r' ∧ v.head? = some '\n')

/-- Whether an offset separates no carriage return from the line feed after it. -/
def IsCut (t : Text) (n : Nat) : Prop :=
  n ≤ t.length ∧ CleanSeam (t.take n) (t.drop n)

/-- The position after the first `n` characters. -/
def pointAt (t : Text) (n : Nat) : Point :=
  pointAfter .origin (t.take n)

/-- A position can be addressed if its row exists and its line is long enough. -/
lemma addressable_iff {t : Text} {p : Point} :
    t.Addressable p ↔ p.row ≤ t.lastRow ∧ p.column ≤ t.lineLength p.row := by
  cases p with
  | mk row column =>
    simp only [Addressable, clip, Point.mk.injEq]
    constructor
    · rintro ⟨h₁, h₂⟩
      have hr : row ≤ t.lastRow := by omega
      rw [Nat.min_eq_left hr] at h₂
      exact ⟨hr, by omega⟩
    · rintro ⟨h₁, h₂⟩
      rw [Nat.min_eq_left h₁]
      exact ⟨rfl, Nat.min_eq_left h₂⟩

lemma addressable_clip (t : Text) (p : Point) : t.Addressable (t.clip p) := by
  rw [addressable_iff, clip]
  exact ⟨Nat.min_le_right _ _, Nat.min_le_right _ _⟩

/-- The offset of a position that can be addressed: where its row starts, and the column. -/
lemma offset_eq {t : Text} {p : Point} (h : t.Addressable p) :
    t.offset p = rowStart p.row t + p.column := by
  rw [offset, h]

lemma addressable_origin (t : Text) : t.Addressable .origin := by
  rw [addressable_iff]
  exact ⟨Nat.zero_le _, Nat.zero_le _⟩

/-- The last character alone decides whether a seam is clean. -/
lemma cleanSeam_cons {c d : Char} {u v : Text} :
    CleanSeam (c :: d :: u) v ↔ CleanSeam (d :: u) v := by
  rw [CleanSeam, CleanSeam, List.getLast?_cons_cons]

lemma isCut_zero (t : Text) : t.IsCut 0 := by
  simp [IsCut, CleanSeam]

/-- One more character in front of a cut; only right at the cut it can matter which one. -/
lemma IsCut.cons {c : Char} {t : Text} {n : Nat} (h : t.IsCut n) (hseam : n = 0 → CleanSeam [c] t) :
    IsCut (c :: t) (n + 1) := by
  refine ⟨Nat.succ_le_succ h.1, ?_⟩
  rw [List.take_succ_cons, List.drop_succ_cons]
  cases htake : t.take n with
  | nil =>
    rcases List.take_eq_nil_iff.1 htake with rfl | rfl
    · exact hseam rfl
    · simp [CleanSeam]
  | cons d u =>
    rw [cleanSeam_cons, ← htake]
    exact h.2

/-- A cut behind the first character is a cut of what follows that character. -/
lemma IsCut.tail {c : Char} {t : Text} {n : Nat} (h : IsCut (c :: t) (n + 1)) : t.IsCut n := by
  have hseam := h.2
  rw [List.take_succ_cons, List.drop_succ_cons] at hseam
  refine ⟨Nat.le_of_succ_le_succ h.1, ?_⟩
  cases htake : t.take n with
  | nil => simp [CleanSeam]
  | cons d u => rwa [htake, cleanSeam_cons] at hseam

/-! ### One character at a time -/

/-- A character that is not part of a line ending makes the first line longer by one. -/
lemma firstLineLength_cons {c : Char} {t : Text} (hc : c ≠ '\n') (h : CleanSeam [c] t) :
    firstLineLength (c :: t) = firstLineLength t + 1 := by
  rw [firstLineLength.eq_def]
  split
  · contradiction
  · simp_all
  · simp_all [CleanSeam]
  · simp_all

/-- A carriage return in front of a line feed ends the first line. -/
lemma firstLineLength_cons_of_not {c : Char} {t : Text} (h : ¬CleanSeam [c] t) :
    firstLineLength (c :: t) = 0 := by
  rw [CleanSeam, Classical.not_not] at h
  obtain ⟨h₁, h₂⟩ := h
  obtain ⟨u, rfl⟩ := List.head?_eq_some_iff.1 h₂
  simp only [List.getLast?_singleton, Option.some.injEq] at h₁
  subst h₁
  rfl

/-- Behind a line feed everything is one row further down. -/
lemma pointAt_succ_lf (t : Text) (n : Nat) :
    pointAt ('\n' :: t) (n + 1) = ⟨(pointAt t n).row + 1, (pointAt t n).column⟩ := by
  rw [pointAt, List.take_succ_cons, pointAfter, if_pos rfl, pointAfter_eq_rebase, rebase]
  split_ifs with h
  · simp only [pointAt, h, Nat.zero_add]
    rfl
  · rw [Nat.add_comm]
    rfl

/-- Behind any other character the first row is one column further to the right. -/
lemma pointAt_succ {c : Char} (hc : c ≠ '\n') (t : Text) (n : Nat) :
    pointAt (c :: t) (n + 1) = (⟨0, 1⟩ : Point).rebase (pointAt t n) := by
  rw [pointAt, List.take_succ_cons, pointAfter, if_neg hc, pointAfter_eq_rebase]
  rfl

@[simp] lemma pointAt_zero (t : Text) : pointAt t 0 = .origin := rfl

lemma lastRow_cons_lf (t : Text) : lastRow ('\n' :: t) = lastRow t + 1 := by
  simp [lastRow]

lemma lastRow_cons {c : Char} (hc : c ≠ '\n') (t : Text) : lastRow (c :: t) = lastRow t := by
  simp [lastRow, List.count_cons_of_ne hc]

/-- Below the first line, rows start one character further on behind a line feed. -/
lemma rowStart_succ_lf (row : Nat) (t : Text) :
    rowStart (row + 1) ('\n' :: t) = rowStart row t + 1 := by
  rw [rowStart, if_pos rfl]

/-- A character in the first line moves the start of every later row by one. -/
lemma rowStart_succ {c : Char} (hc : c ≠ '\n') (row : Nat) (t : Text) :
    rowStart (row + 1) (c :: t) = rowStart (row + 1) t + 1 := by
  rw [rowStart, if_neg hc]

/-- The lines below a line feed are the lines of what follows it. -/
lemma lineLength_succ_lf (row : Nat) (t : Text) :
    lineLength ('\n' :: t) (row + 1) = lineLength t row := by
  rw [lineLength, fromRow, if_pos rfl, lineLength]

/-- A character in the first line leaves the later lines as they are. -/
lemma lineLength_succ {c : Char} (hc : c ≠ '\n') (row : Nat) (t : Text) :
    lineLength (c :: t) (row + 1) = lineLength t (row + 1) := by
  rw [lineLength, fromRow, if_neg hc, lineLength]

lemma rowStart_succ_pos {row : Nat} {t : Text} (h : row < t.lastRow) : 0 < rowStart (row + 1) t := by
  cases t with
  | nil => simp [lastRow] at h
  | cons c t =>
    rw [rowStart]
    omega

/-! ### The correspondence -/

/-- An addressable position is the position at its offset, and its offset is a cut. -/
lemma pointAt_rowStart {t : Text} {row column : Nat} (hr : row ≤ t.lastRow)
    (hc : column ≤ t.lineLength row) :
    t.IsCut (rowStart row t + column) ∧ t.pointAt (rowStart row t + column) = ⟨row, column⟩ := by
  induction t generalizing row column with
  | nil =>
    have hrow : row = 0 := by simpa [lastRow] using hr
    subst hrow
    have hcol : column = 0 := by simpa [lineLength, fromRow, firstLineLength] using hc
    subst hcol
    exact ⟨isCut_zero _, rfl⟩
  | cons c t ih =>
    by_cases hlf : c = '\n'
    · subst hlf
      cases row with
      | zero =>
        have hcol : column = 0 := by simpa [lineLength, fromRow, firstLineLength] using hc
        subst hcol
        exact ⟨isCut_zero _, rfl⟩
      | succ row =>
        rw [lastRow_cons_lf] at hr
        rw [lineLength_succ_lf] at hc
        obtain ⟨hcut, hpoint⟩ := ih (Nat.le_of_succ_le_succ hr) hc
        rw [rowStart_succ_lf, Nat.add_right_comm, pointAt_succ_lf, hpoint]
        exact ⟨hcut.cons fun _ => by simp [CleanSeam], rfl⟩
    · cases row with
      | zero =>
        cases column with
        | zero => exact ⟨isCut_zero _, rfl⟩
        | succ column =>
          -- a column after the first one exists only where the line does not end at once
          have hseam : CleanSeam [c] t := by
            by_contra hn
            rw [lineLength, fromRow, firstLineLength_cons_of_not hn] at hc
            omega
          have hc' : column ≤ lineLength t 0 := by
            rw [lineLength, fromRow, firstLineLength_cons hlf hseam] at hc
            rw [lineLength, fromRow]
            omega
          obtain ⟨hcut, hpoint⟩ := ih (Nat.zero_le _) hc'
          simp only [rowStart, Nat.zero_add] at hcut hpoint ⊢
          rw [pointAt_succ hlf, hpoint]
          exact ⟨hcut.cons fun _ => hseam, by simp [rebase, Nat.add_comm]⟩
      | succ row =>
        rw [lastRow_cons hlf] at hr
        rw [lineLength_succ hlf] at hc
        obtain ⟨hcut, hpoint⟩ := ih hr hc
        have hpos := rowStart_succ_pos (Nat.lt_of_succ_le hr)
        rw [rowStart_succ hlf, Nat.add_right_comm, pointAt_succ hlf, hpoint]
        exact ⟨hcut.cons fun hzero => by omega, by simp [rebase]⟩

/-- The position at a cut is addressable, and its offset is the cut. -/
lemma rowStart_pointAt {t : Text} {n : Nat} (h : t.IsCut n) :
    (t.pointAt n).row ≤ t.lastRow ∧ (t.pointAt n).column ≤ t.lineLength (t.pointAt n).row ∧
      rowStart (t.pointAt n).row t + (t.pointAt n).column = n := by
  induction t generalizing n with
  | nil =>
    have hn : n = 0 := by simpa using h.1
    subst hn
    simp [origin, rowStart]
  | cons c t ih =>
    cases n with
    | zero => simp [origin, rowStart]
    | succ n =>
      obtain ⟨h₁, h₂, h₃⟩ := ih h.tail
      by_cases hlf : c = '\n'
      · subst hlf
        rw [pointAt_succ_lf, lastRow_cons_lf, lineLength_succ_lf, rowStart_succ_lf]
        refine ⟨Nat.succ_le_succ h₁, h₂, ?_⟩
        simp only
        omega
      · rw [pointAt_succ hlf, lastRow_cons hlf]
        cases hp : pointAt t n with
        | mk row column =>
          rw [hp] at h₁ h₂ h₃
          cases row with
          | zero =>
            -- still on the first row, so the character just read does not end it
            have hseam' : CleanSeam [c] t := by
              by_contra hn
              rw [CleanSeam, Classical.not_not] at hn
              obtain ⟨u, rfl⟩ := List.head?_eq_some_iff.1 hn.2
              cases n with
              | zero => exact h.2 (by simpa using hn)
              | succ k =>
                rw [pointAt_succ_lf] at hp
                simp at hp
            simp only [rebase, if_true, lineLength, fromRow, rowStart] at h₂ h₃ ⊢
            rw [firstLineLength_cons hlf hseam']
            omega
          | succ row =>
            simp only [rebase, Nat.add_one_ne_zero, if_false, Nat.zero_add] at h₁ h₂ h₃ ⊢
            rw [lineLength_succ hlf, rowStart_succ hlf]
            exact ⟨h₁, h₂, by omega⟩

/-- What can be addressed is never in the middle of a line ending. -/
lemma Addressable.isCut {t : Text} {p : Point} (h : t.Addressable p) : t.IsCut (t.offset p) := by
  rw [offset_eq h]
  exact (pointAt_rowStart (addressable_iff.1 h).1 (addressable_iff.1 h).2).1

/-- A position is found again from its offset. -/
lemma Addressable.pointAt_offset {t : Text} {p : Point} (h : t.Addressable p) :
    t.pointAt (t.offset p) = p := by
  rw [offset_eq h]
  exact (pointAt_rowStart (addressable_iff.1 h).1 (addressable_iff.1 h).2).2

lemma IsCut.addressable {t : Text} {n : Nat} (h : t.IsCut n) : t.Addressable (t.pointAt n) :=
  addressable_iff.2 ⟨(rowStart_pointAt h).1, (rowStart_pointAt h).2.1⟩

/-- A cut is found again from its position. -/
lemma IsCut.offset_pointAt {t : Text} {n : Nat} (h : t.IsCut n) : t.offset (t.pointAt n) = n := by
  rw [offset_eq h.addressable]
  exact (rowStart_pointAt h).2.2

lemma Addressable.offset_le {t : Text} {p : Point} (h : t.Addressable p) : t.offset p ≤ t.length :=
  h.isCut.1

/-- An offset is that of the nearest position. -/
lemma offset_clip (t : Text) (p : Point) : t.offset (t.clip p) = t.offset p := by
  unfold offset
  rw [addressable_clip]

/-- No offset is beyond the text, whatever position is asked for. -/
lemma offset_le_length (t : Text) (p : Point) : t.offset p ≤ t.length := by
  rw [← offset_clip]
  exact (addressable_clip t p).offset_le

/-- Where two parts of a text meet cleanly is a position. -/
lemma CleanSeam.addressable {u v : Text} (h : CleanSeam u v) :
    (u ++ v).Addressable (pointAfter .origin u) ∧
      (u ++ v).offset (pointAfter .origin u) = u.length := by
  have hcut : (u ++ v).IsCut u.length := by
    rw [IsCut, List.take_left, List.drop_left, List.length_append]
    exact ⟨Nat.le_add_right _ _, h⟩
  have hpoint : (u ++ v).pointAt u.length = pointAfter .origin u := by rw [pointAt, List.take_left]
  rw [← hpoint]
  exact ⟨hcut.addressable, hcut.offset_pointAt⟩

/-- Positions ascend with the offsets. -/
lemma pointAt_lt_pointAt {t : Text} {m n : Nat} (hn : n ≤ t.length) (h : m < n) :
    t.pointAt m < t.pointAt n := by
  have hsplit := List.take_append_drop m (t.take n)
  rw [List.take_take, Nat.min_eq_left (Nat.le_of_lt h)] at hsplit
  have hne : (t.take n).drop m ≠ [] := by
    rw [ne_eq, List.drop_eq_nil_iff, List.length_take]
    omega
  rw [pointAt, pointAt, ← hsplit, pointAfter_append]
  exact lt_pointAfter _ hne

/-- Offsets of addressable positions stand in the order of the positions. -/
lemma offset_lt_offset_iff {t : Text} {p q : Point} (hp : t.Addressable p) (hq : t.Addressable q) :
    t.offset p < t.offset q ↔ p < q := by
  constructor
  · intro h
    have hlt := pointAt_lt_pointAt hq.offset_le h
    rwa [hp.pointAt_offset, hq.pointAt_offset] at hlt
  · intro h
    by_contra hn
    rcases Nat.lt_or_eq_of_le (Nat.le_of_not_lt hn) with hlt | heq
    · have hlt := pointAt_lt_pointAt hp.offset_le hlt
      rw [hp.pointAt_offset, hq.pointAt_offset] at hlt
      exact Point.not_lt.2 (le_of_lt h) hlt
    · have hpq := congrArg t.pointAt heq
      rw [hp.pointAt_offset, hq.pointAt_offset] at hpq
      exact Point.not_lt.2 (hpq ▸ le_refl q) h

/-- Positions are ordered as their offsets are. -/
lemma offset_le_offset_iff {t : Text} {p q : Point} (hp : t.Addressable p) (hq : t.Addressable q) :
    t.offset p ≤ t.offset q ↔ p ≤ q := by
  rw [← Nat.not_lt, offset_lt_offset_iff hq hp, Point.not_lt]

/-! ## The text between two positions -/

section Slices

variable {t : Text} {a b c : Point}

/-- The text between two positions is as long as their offsets are apart. -/
lemma length_slice (hb : t.Addressable b) :
    (t.slice ⟨a, b⟩).length = t.offset b - t.offset a := by
  have := hb.offset_le
  simp only [slice, List.length_take, List.length_drop]
  omega

lemma slice_self (a : Point) : t.slice ⟨a, a⟩ = [] := by
  simp [slice]

/-- The text between positions in order can be taken. -/
lemma slice?_eq_some {r : Range} (hs : t.Addressable r.start) (he : t.Addressable r.stop)
    (h : r.start ≤ r.stop) : t.slice? r = some (t.slice r) :=
  if_pos ((offset_le_offset_iff hs he).2 h)

/-- What stands before `b`, from the text before `a` on. -/
lemma take_append_slice (h : t.offset a ≤ t.offset b) :
    t.take (t.offset a) ++ t.slice ⟨a, b⟩ = t.take (t.offset b) := by
  have hsplit := List.take_append_drop (t.offset a) (t.take (t.offset b))
  rwa [List.take_take, Nat.min_eq_left h, List.drop_take] at hsplit

/-- Text up to a position and from it on, put together. -/
lemma slice_append (hab : t.offset a ≤ t.offset b) (hbc : t.offset b ≤ t.offset c) :
    t.slice ⟨a, b⟩ ++ t.slice ⟨b, c⟩ = t.slice ⟨a, c⟩ := by
  have h₁ := take_append_slice hab
  have h₂ := take_append_slice hbc
  have h₃ := take_append_slice (Nat.le_trans hab hbc)
  rw [← h₁, ← h₃, List.append_assoc] at h₂
  exact List.append_cancel_left h₂

/-- Laying out the text between two positions leads from the one to the other. -/
lemma pointAfter_slice (ha : t.Addressable a) (hb : t.Addressable b) (hab : a ≤ b) :
    pointAfter a (t.slice ⟨a, b⟩) = b := by
  have hle := (offset_le_offset_iff ha hb).2 hab
  calc pointAfter a (t.slice ⟨a, b⟩)
      = pointAfter (t.pointAt (t.offset a)) (t.slice ⟨a, b⟩) := by rw [ha.pointAt_offset]
    _ = pointAfter .origin (t.take (t.offset a) ++ t.slice ⟨a, b⟩) := by
        rw [pointAt, pointAfter_append]
    _ = t.pointAt (t.offset b) := by rw [take_append_slice hle, pointAt]
    _ = b := hb.pointAt_offset

/-- Laying text out goes down by one row for each line feed. -/
lemma row_pointAfter (p : Point) (u : Text) : (pointAfter p u).row = p.row + u.count '\n' := by
  induction u generalizing p with
  | nil => simp [pointAfter]
  | cons c u ih =>
    by_cases hc : c = '\n'
    · rw [pointAfter, if_pos hc, ih, hc, List.count_cons_self]
      simp only
      omega
    · rw [pointAfter, if_neg hc, ih, List.count_cons_of_ne hc]

/-- Between two positions of one row there is no line feed. -/
lemma notMem_slice_of_row (ha : t.Addressable a) (hb : t.Addressable b) (hab : a ≤ b)
    (hrow : a.row = b.row) : '\n' ∉ t.slice ⟨a, b⟩ := by
  have h := congrArg Point.row (pointAfter_slice ha hb hab)
  rw [row_pointAfter, hrow] at h
  rw [← List.count_eq_zero]
  omega

end Slices

/-! ## The end of the text -/

lemma addressable_lineEnd (t : Text) (row : Nat) : t.Addressable (t.lineEnd row) := by
  rw [addressable_iff, lineEnd]
  exact ⟨Nat.min_le_right _ _, Nat.le_refl _⟩

lemma addressable_stop (t : Text) : t.Addressable t.fullRange.stop :=
  addressable_lineEnd t t.lastRow

/-- Nothing that can be addressed is behind the end of the text. -/
lemma le_stop {t : Text} {p : Point} (h : t.Addressable p) : p ≤ t.fullRange.stop := by
  obtain ⟨hr, hc⟩ := addressable_iff.1 h
  rw [le_iff]
  simp only [fullRange, lineEnd, Nat.min_self]
  rcases Nat.lt_or_eq_of_le hr with hlt | heq
  · exact Or.inl hlt
  · exact Or.inr ⟨heq, heq ▸ hc⟩

/-- The end of the text is as far from its start as the text is long. -/
lemma offset_stop (t : Text) : t.offset t.fullRange.stop = t.length := by
  have hcut : t.IsCut t.length := by
    rw [IsCut, List.take_length, List.drop_length]
    exact ⟨Nat.le_refl _, by simp [CleanSeam]⟩
  have hle := (offset_le_offset_iff hcut.addressable (addressable_stop t)).2
    (le_stop hcut.addressable)
  rw [hcut.offset_pointAt] at hle
  exact Nat.le_antisymm (addressable_stop t).offset_le hle

/-- The text from a position to the end. -/
lemma slice_stop (t : Text) (p : Point) : t.slice ⟨p, t.fullRange.stop⟩ = t.drop (t.offset p) := by
  rw [slice, offset_stop, ← List.length_drop, List.take_length]

/-! ## Steps -/

/-- The number of characters that the first step takes: a carriage return and the line feed after
it are crossed together. -/
def stepLength : Text → Nat
  | '\r' :: '\n' :: _ => 2
  | _ => 1

/-- A character that is not part of a line ending is one step. -/
lemma stepLength_cons {c : Char} {u : Text} (h : CleanSeam [c] u) : stepLength (c :: u) = 1 := by
  rw [stepLength.eq_def]
  split
  · simp_all [CleanSeam]
  · rfl

lemma stepLength_pos (u : Text) : 0 < stepLength u := by
  rw [stepLength.eq_def]
  split <;> omega

/-- The offset after a step is a cut again. -/
lemma IsCut.step {t : Text} {n : Nat} (h : n < t.length) : t.IsCut (n + stepLength (t.drop n)) := by
  obtain ⟨c, u, hcu⟩ : ∃ c u, t.drop n = c :: u := by
    cases hd : t.drop n with
    | nil => simp [List.drop_eq_nil_iff] at hd; omega
    | cons c u => exact ⟨c, u, rfl⟩
  have hlen := congrArg List.length hcu
  simp only [List.length_drop, List.length_cons] at hlen
  have hadd : ∀ k, t.take (n + k) = t.take n ++ (t.drop n).take k := fun k => List.take_add
  by_cases hs : CleanSeam [c] u
  · rw [hcu, stepLength_cons hs]
    refine ⟨by omega, ?_⟩
    rw [hadd, hcu, ← List.drop_drop, hcu]
    simpa [CleanSeam] using hs
  · rw [CleanSeam, Classical.not_not] at hs
    obtain ⟨v, rfl⟩ := List.head?_eq_some_iff.1 hs.2
    have hc : c = '\r' := by simpa using hs.1
    subst hc
    rw [hcu, stepLength]
    simp only [List.length_cons] at hlen
    refine ⟨by omega, ?_⟩
    rw [hadd, hcu]
    simp [CleanSeam]

/-- No cut stands inside a step. -/
lemma IsCut.step_le {t : Text} {m n : Nat} (hn : t.IsCut n) (h : m < n) :
    m + stepLength (t.drop m) ≤ n := by
  rw [stepLength.eq_def]
  split
  · rename_i u hu
    by_contra hlt
    have hnm : n = m + 1 := by omega
    subst hnm
    apply hn.2
    rw [List.take_add, ← List.drop_drop, hu]
    simp
  · omega

/-- The next position is the one after the first step. -/
lemma offset_next {t : Text} {p : Point} (hp : t.Addressable p) (h : t.offset p < t.length) :
    t.Addressable (t.next p) ∧ t.offset (t.next p) = t.offset p + stepLength (t.drop (t.offset p)) := by
  set q := t.pointAt (t.offset p + stepLength (t.drop (t.offset p))) with hq
  have hcut := IsCut.step h
  have hqa : t.Addressable q := hcut.addressable
  have hqo : t.offset q = t.offset p + stepLength (t.drop (t.offset p)) := hcut.offset_pointAt
  have hpos := stepLength_pos (t.drop (t.offset p))
  have hpq : p < q := (offset_lt_offset_iff hp hqa).1 (by omega)
  -- `q` is the least addressable position after `p`
  have hleast : ∀ r, t.Addressable r → p < r → q ≤ r := by
    intro r hr hpr
    rw [← offset_le_offset_iff hqa hr, hqo]
    exact hr.isCut.step_le ((offset_lt_offset_iff hp hr).2 hpr)
  obtain ⟨hprow, hpcol⟩ := addressable_iff.1 hp
  obtain ⟨hqrow, hqcol⟩ := addressable_iff.1 hqa
  suffices heq : t.next p = q by
    rw [heq]
    exact ⟨hqa, hqo⟩
  rw [lt_iff] at hpq
  rw [next]
  split_ifs with h₁ h₂
  · have hn : t.Addressable ⟨p.row, p.column + 1⟩ := addressable_iff.2 ⟨hprow, h₁⟩
    refine le_antisymm ?_ (hleast _ hn (Or.inr ⟨rfl, Nat.lt_succ_self _⟩))
    rw [le_iff]
    simp only
    omega
  · have hn : t.Addressable ⟨p.row + 1, 0⟩ := addressable_iff.2 ⟨h₂, Nat.zero_le _⟩
    refine le_antisymm ?_ (hleast _ hn (Or.inl (Nat.lt_succ_self _)))
    rw [le_iff]
    simp only
    rcases hpq with hlt | ⟨heq, hlt⟩
    · omega
    · rw [← heq] at hqcol
      omega
  · rcases hpq with hlt | ⟨heq, hlt⟩
    · omega
    · rw [← heq] at hqcol
      omega

/-- A text is one step, and then as many as the rest has. -/
lemma visualLength_cons {c : Char} {u : Text} :
    visualLength (c :: u) = visualLength ((c :: u).drop (stepLength (c :: u))) + 1 := by
  rw [visualLength.eq_def]
  split
  · contradiction
  · simp_all [stepLength]
  · rename_i d v hne heq
    obtain ⟨rfl, rfl⟩ := List.cons.inj heq
    have hs : CleanSeam [c] u := by
      rintro ⟨h₁, h₂⟩
      obtain ⟨v, rfl⟩ := List.head?_eq_some_iff.1 h₂
      exact hne v (by simpa using h₁) rfl
    rw [stepLength_cons hs, List.drop_one, List.tail_cons]

section Advance

variable {t : Text} {p b : Point}

/-- Text behind the first step has no part in it. -/
lemma stepLength_take {u : Text} {n : Nat} (h : stepLength u ≤ n) :
    stepLength (u.take n) = stepLength u := by
  rw [stepLength.eq_def u] at h ⊢
  split
  · rename_i v
    simp only at h
    obtain ⟨k, rfl⟩ : ∃ k, n = k + 2 := ⟨n - 2, by omega⟩
    rfl
  · rename_i hne
    rw [stepLength.eq_def]
    split
    · rename_i v hv
      have hu := List.take_append_drop n u
      rw [hv] at hu
      exact absurd hu.symm (hne (v ++ u.drop n))
    · rfl

/-- A position before `b` is one step further away from `b` than its successor. -/
lemma visualLength_slice_next (hp : t.Addressable p) (hb : t.Addressable b) (h : p < b) :
    t.Addressable (t.next p) ∧ p < t.next p ∧ t.next p ≤ b ∧
      visualLength (t.slice ⟨p, b⟩) = visualLength (t.slice ⟨t.next p, b⟩) + 1 := by
  have hlt := (offset_lt_offset_iff hp hb).2 h
  obtain ⟨hna, hno⟩ := offset_next hp (Nat.lt_of_lt_of_le hlt hb.offset_le)
  have hle := hb.isCut.step_le hlt
  have hpos := stepLength_pos (t.drop (t.offset p))
  refine ⟨hna, (offset_lt_offset_iff hp hna).1 (by omega),
    (offset_le_offset_iff hna hb).1 (by omega), ?_⟩
  have hstep : stepLength (t.slice ⟨p, b⟩) = stepLength (t.drop (t.offset p)) :=
    stepLength_take (by simp only; omega)
  have hdrop : (t.slice ⟨p, b⟩).drop (stepLength (t.slice ⟨p, b⟩)) = t.slice ⟨t.next p, b⟩ := by
    rw [hstep]
    simp only [slice, hno, List.drop_take, List.drop_drop]
    congr 1
    omega
  have hlen := length_slice (a := p) hb
  cases hs : t.slice ⟨p, b⟩ with
  | nil =>
    rw [hs, List.length_nil] at hlen
    omega
  | cons c u => rw [visualLength_cons, ← hs, hdrop]

/-- Advancing by no more steps than lead to `b` stays before `b`, and each step counts. -/
lemma advance_spec (hp : t.Addressable p) (hb : t.Addressable b) (hpb : p ≤ b) {n : Nat}
    (hn : n ≤ visualLength (t.slice ⟨p, b⟩)) :
    t.Addressable (t.advance p n) ∧ p ≤ t.advance p n ∧ t.advance p n ≤ b ∧
      visualLength (t.slice ⟨t.advance p n, b⟩) + n = visualLength (t.slice ⟨p, b⟩) := by
  induction n generalizing p with
  | zero => exact ⟨hp, le_refl p, hpb, rfl⟩
  | succ n ih =>
    have hlt : p < b := by
      by_contra hge
      have heq := le_antisymm hpb (Point.not_lt.1 hge)
      rw [heq, slice_self, visualLength] at hn
      omega
    obtain ⟨hna, hpn, hnb, hlen⟩ := visualLength_slice_next hp hb hlt
    have hne : t.next p ≠ p := by
      intro heq
      rw [heq] at hpn
      exact Point.not_lt.2 (le_refl p) hpn
    rw [advance, if_neg hne]
    obtain ⟨h₁, h₂, h₃, h₄⟩ := ih hna hnb (by omega)
    exact ⟨h₁, le_trans (le_of_lt hpn) h₂, h₃, by omega⟩

end Advance

/-- Lengths in steps add up where two texts meet cleanly. -/
lemma visualLength_append {u v : Text} (h : CleanSeam u v) :
    visualLength (u ++ v) = visualLength u + visualLength v := by
  fun_induction visualLength u with
  | case1 => simp
  | case2 u ih =>
    have hseam : CleanSeam u v := by
      rintro ⟨h₁, h₂⟩
      exact h ⟨by simp [List.getLast?_cons, h₁], h₂⟩
    rw [List.cons_append, List.cons_append, visualLength, ih hseam]
    omega
  | case3 c u hne ih =>
    have hseam : CleanSeam u v := by
      rintro ⟨h₁, h₂⟩
      exact h ⟨by simp [List.getLast?_cons, h₁], h₂⟩
    have hcv : CleanSeam [c] (u ++ v) := by
      rintro ⟨h₁, h₂⟩
      cases u with
      | nil => exact h ⟨h₁, h₂⟩
      | cons d u =>
        simp only [List.getLast?_singleton, Option.some.injEq, List.cons_append,
          List.head?_cons] at h₁ h₂
        exact hne u h₁ (by rw [h₂])
    rw [List.cons_append, visualLength_cons, stepLength_cons hcv, List.drop_one, List.tail_cons,
      ih hseam]
    omega

/-- Without line feeds every character is a step. -/
lemma visualLength_of_notMem {u : Text} (h : '\n' ∉ u) : visualLength u = u.length := by
  fun_induction visualLength u with
  | case1 => rfl
  | case2 => simp at h
  | case3 c u hne ih => rw [ih fun hn => h (List.mem_cons_of_mem _ hn), List.length_cons]

/-- The texts before and after an addressable position meet cleanly. -/
lemma cleanSeam_slice {t : Text} {a b c : Point} (ha : t.Addressable a) (hb : t.Addressable b)
    (hab : a ≤ b) : CleanSeam (t.slice ⟨a, b⟩) (t.slice ⟨b, c⟩) := by
  rintro ⟨h₁, h₂⟩
  refine hb.isCut.2 ⟨?_, ?_⟩
  · rw [← take_append_slice ((offset_le_offset_iff ha hb).2 hab), List.getLast?_append, h₁]
    rfl
  · rw [slice, List.head?_take] at h₂
    split at h₂
    · simp at h₂
    · exact h₂

/-! ## Line endings -/

section LineEndings

variable {t : Text} {row : Nat}

lemma addressable_next_row (h : row < t.lastRow) : t.Addressable ⟨row + 1, 0⟩ :=
  addressable_iff.2 ⟨h, Nat.zero_le _⟩

lemma lineEnd_eq (h : row ≤ t.lastRow) : t.lineEnd row = ⟨row, t.lineLength row⟩ := by
  simp only [lineEnd, Nat.min_eq_left h]

/-- A position is in front of the end of its line or at it. -/
lemma Addressable.le_lineEnd {p : Point} (hp : t.Addressable p) : p ≤ t.lineEnd p.row := by
  obtain ⟨hr, hc⟩ := addressable_iff.1 hp
  rw [lineEnd_eq hr]
  exact Or.inr ⟨rfl, hc⟩

lemma lineEnd_lt_next_row (h : row < t.lastRow) : t.lineEnd row < ⟨row + 1, 0⟩ := by
  rw [lineEnd_eq (Nat.le_of_lt h)]
  exact Or.inl (Nat.lt_succ_self _)

/-- The step after the end of a row leads to the next row. -/
lemma next_lineEnd (h : row < t.lastRow) : t.next (t.lineEnd row) = ⟨row + 1, 0⟩ := by
  rw [lineEnd_eq (Nat.le_of_lt h), next, if_neg (Nat.lt_irrefl _), if_pos h]

end LineEndings

/-! ## Stepping and measuring -/

section Measuring

variable {t : Text} {a b c p q : Point}

/-- Widths add up: the text between two positions is cut at one between them. -/
lemma visualLength_slice_add (ha : t.Addressable a) (hb : t.Addressable b) (hc : t.Addressable c)
    (hab : a ≤ b) (hbc : b ≤ c) :
    visualLength (t.slice ⟨a, c⟩) = visualLength (t.slice ⟨a, b⟩) + visualLength (t.slice ⟨b, c⟩) := by
  rw [← slice_append ((offset_le_offset_iff ha hb).2 hab) ((offset_le_offset_iff hb hc).2 hbc),
    visualLength_append (cleanSeam_slice ha hb hab)]

/-- Text of no width is no text. -/
lemma eq_of_visualLength_eq_zero (ha : t.Addressable a) (hb : t.Addressable b) (hab : a ≤ b)
    (h : visualLength (t.slice ⟨a, b⟩) = 0) : a = b := by
  apply (eq_or_lt_of_le hab).resolve_right
  intro hlt
  have hstep := (visualLength_slice_next ha hb hlt).2.2.2
  omega

/-- As many steps as the text between two positions is long lead from the one to the other. -/
lemma advance_visualLength (ha : t.Addressable a) (hb : t.Addressable b) (hab : a ≤ b) :
    t.advance a (visualLength (t.slice ⟨a, b⟩)) = b := by
  obtain ⟨haddr, -, hle, hrest⟩ := advance_spec ha hb hab (Nat.le_refl _)
  apply eq_of_visualLength_eq_zero haddr hb hle
  omega

/-- Steps add up. -/
lemma advance_add (t : Text) (p : Point) (m n : Nat) :
    t.advance p (m + n) = t.advance (t.advance p m) n := by
  induction m generalizing p with
  | zero => rw [Nat.zero_add, advance]
  | succ m ih =>
    rw [Nat.succ_add, advance, advance]
    split
    · -- where there is no step left, further ones change nothing
      rename_i hstay
      cases n with
      | zero => rfl
      | succ n => rw [advance, if_pos hstay]
    · exact ih _

/-- There is no step beyond the end of the text. -/
lemma advance_stop (t : Text) (n : Nat) : t.advance t.fullRange.stop n = t.fullRange.stop := by
  have hstay : t.next t.fullRange.stop = t.fullRange.stop := by
    simp [next, fullRange, lineEnd]
  cases n with
  | zero => rfl
  | succ n => rw [advance, if_pos hstay]

/-- **Stepping matches measuring.** From a position to a later one there are as many steps as the
text between them is long, and a number of steps crosses text of that length, up to the end of the
text. -/
theorem advance_measures (hp : t.Addressable p) (hq : t.Addressable q) (hpq : p ≤ q) :
    (∃ between, t.slice? ⟨p, q⟩ = some between ∧ t.advance p (visualLength between) = q) ∧
    ∀ n, ∃ crossed, t.slice? ⟨p, t.advance p n⟩ = some crossed ∧
      visualLength crossed = min n (visualLength (t.drop (t.offset p))) := by
  refine ⟨⟨_, slice?_eq_some hp hq hpq, advance_visualLength hp hq hpq⟩, ?_⟩
  intro n
  have hstop := addressable_stop t
  have hle := le_stop hp
  rw [← slice_stop]
  rcases Nat.le_total n (visualLength (t.slice ⟨p, t.fullRange.stop⟩)) with hn | hn
  · obtain ⟨haddr, hfrom, hto, hrest⟩ := advance_spec hp hstop hle hn
    have hsplit := visualLength_slice_add hp haddr hstop hfrom hto
    refine ⟨_, slice?_eq_some hp haddr hfrom, ?_⟩
    omega
  · -- the steps past the end of the text lead nowhere
    have hend : t.advance p n = t.fullRange.stop := by
      rw [← Nat.add_sub_cancel' hn, advance_add, advance_visualLength hp hstop hle, advance_stop]
    rw [hend]
    exact ⟨_, slice?_eq_some hp hstop hle, (Nat.min_eq_right hn).symm⟩

/-- A run of carriage returns before a line feed, an empty row and a lone carriage return at the end
of the text: from behind the first character there are four steps to the last carriage return, and a
fifth one is the last. -/
theorem advance_measures_returns :
    let t : Text := "é\r\r\n\nb\r".toList
    (∃ between, t.slice? ⟨⟨0, 1⟩, ⟨2, 1⟩⟩ = some between ∧
      t.advance ⟨0, 1⟩ (visualLength between) = ⟨2, 1⟩) ∧
    ∀ n, ∃ crossed, t.slice? ⟨⟨0, 1⟩, t.advance ⟨0, 1⟩ n⟩ = some crossed ∧
      visualLength crossed = min n 5 := by
  intro t
  exact advance_measures (t := t) (p := ⟨0, 1⟩) (q := ⟨2, 1⟩) (by decide) (by decide) (by decide)

end Measuring

end Text

end TemplateFolding
