import TemplateFolding.Proofs.ExactWidth

/-!
# Text that an edit moves

A text in which every carriage return stands before a line feed can be cut exactly where the part
before the cut has that property too. So an edit at positions of such a text keeps the positions
before it, shifts those after it, and leaves the text between two positions on one side as it is.

The pieces that fold a range depend on the text of the range alone. When the range is moved, they
move along.
-/

namespace TemplateFolding

open Point Range

namespace Text

/-! ## Texts without lone carriage returns -/

/-- Every carriage return stands just before a line feed. -/
def NoLoneReturn : Text → Prop
  | [] => True
  | c :: cs => (c = '\r' → cs.head? = some '\n') ∧ NoLoneReturn cs

instance decidableNoLoneReturn : (t : Text) → Decidable t.NoLoneReturn
  | [] => isTrue trivial
  | _ :: cs =>
    have := decidableNoLoneReturn cs
    inferInstanceAs (Decidable (_ ∧ _))

variable {t u v : Text} {n : Nat}

lemma NoLoneReturn.append (hu : u.NoLoneReturn) (hv : v.NoLoneReturn) : (u ++ v).NoLoneReturn := by
  induction u with
  | nil => exact hv
  | cons c u ih =>
    rw [List.cons_append]
    refine ⟨fun hc => ?_, ih hu.2⟩
    rw [List.head?_append, hu.1 hc, Option.some_or]

/-- What follows a position of such a text has no lone return either: a return that is left still
has its line feed. -/
lemma NoLoneReturn.drop (h : t.NoLoneReturn) (n : Nat) : NoLoneReturn (t.drop n) := by
  induction n generalizing t with
  | zero => exact h
  | succ n ih =>
    cases t with
    | nil => exact h
    | cons c t => exact ih h.2

/-- Such a text does not end in a return. -/
lemma NoLoneReturn.getLast?_ne (h : t.NoLoneReturn) : t.getLast? ≠ some '\r' := by
  induction t with
  | nil => simp
  | cons c t ih =>
    cases t with
    | nil =>
      intro hc
      have hhead := h.1 (by simpa using hc)
      simp at hhead
    | cons d t =>
      rw [List.getLast?_cons_cons]
      exact ih h.2

/-- What stands before a cut has no lone carriage return either. -/
lemma NoLoneReturn.take (h : t.NoLoneReturn) (hn : t.IsCut n) : NoLoneReturn (t.take n) := by
  induction t generalizing n with
  | nil => simp [NoLoneReturn]
  | cons c t ih =>
    cases n with
    | zero => trivial
    | succ n =>
      obtain ⟨hlen, hseam⟩ := hn
      rw [List.take_succ_cons, List.drop_succ_cons] at hseam
      refine ⟨fun hc => ?_, ?_⟩
      · cases n with
        | zero => exact absurd ⟨by simp [hc], h.1 hc⟩ hseam
        | succ n => rw [List.head?_take, if_neg (Nat.succ_ne_zero n), h.1 hc]
      · cases n with
        | zero => trivial
        | succ n =>
          refine ih h.2 ⟨Nat.le_of_succ_le_succ hlen, fun hbad => hseam ⟨?_, hbad.2⟩⟩
          cases t with
          | nil => simp at hbad
          | cons d t => simpa using hbad.1

lemma NoLoneReturn.cleanSeam (h : u.NoLoneReturn) (v : Text) : CleanSeam u v :=
  fun hbad => h.getLast?_ne hbad.1

/-! ## The same text in two places -/

/-- A cut is anywhere but between a return and its line feed. -/
lemma isCut_iff : t.IsCut n ↔
    n ≤ t.length ∧ ¬(0 < n ∧ t[n - 1]? = some '\r' ∧ t[n]? = some '\n') := by
  rw [IsCut, CleanSeam, List.head?_drop]
  refine and_congr_right fun hn => not_congr ?_
  rw [List.getLast?_eq_getElem?, List.length_take, Nat.min_eq_left hn, List.getElem?_take]
  by_cases h : 0 < n
  · rw [if_pos (by omega)]
    simp [h]
  · rw [if_neg (by omega)]
    simp [h]

/-- Two ranges of two texts with addressable ends between which the same text stands. -/
structure SameText (t : Text) (r : Range) (t' : Text) (r' : Range) : Prop where
  start : t.Addressable r.start
  stop : t.Addressable r.stop
  start' : t'.Addressable r'.start
  stop' : t'.Addressable r'.stop
  ordered : r.start ≤ r.stop
  ordered' : r'.start ≤ r'.stop
  same : t.slice r = t'.slice r'

/-- Where a position of a range stands when the text of the range starts at `q`. -/
def moved (t : Text) (r : Range) (q p : Point) : Point :=
  pointAfter q (t.slice ⟨r.start, p⟩)

section Moved

variable {t' : Text} {r r' : Range} {p q : Point}

/-- The characters of a slice are those of the text, counted from where the slice starts. -/
lemma getElem?_slice {i : Nat} (hi : t.offset r.start + i < t.offset r.stop) :
    (t.slice r)[i]? = t[t.offset r.start + i]? := by
  rw [slice, List.getElem?_take, if_pos (by omega), List.getElem?_drop]

/-- Where the text of a range is the same, the positions in it correspond. -/
lemma SameText.addressable_moved (h : SameText t r t' r') (hp : t.Addressable p)
    (hsp : r.start ≤ p) (hpe : p ≤ r.stop) :
    t'.Addressable (t.moved r r'.start p) ∧
      t'.offset (t.moved r r'.start p) = t'.offset r'.start + (t.offset p - t.offset r.start) := by
  have hlen := length_slice (a := r.start) h.stop
  have hlen' := length_slice (a := r'.start) h.stop'
  have hstart := (offset_le_offset_iff h.start hp).2 hsp
  have hstop := (offset_le_offset_iff hp h.stop).2 hpe
  have hordered' := (offset_le_offset_iff h.start' h.stop').2 h.ordered'
  have hwhole : t.offset r.stop - t.offset r.start = t'.offset r'.stop - t'.offset r'.start := by
    rw [← hlen, ← hlen']
    exact congrArg List.length h.same
  have hchar : ∀ j, t.offset r.start + j < t.offset r.stop →
      t'[t'.offset r'.start + j]? = t[t.offset r.start + j]? := fun j hj => by
    rw [← getElem?_slice (by omega), ← h.same, getElem?_slice hj]
  set i := t.offset p - t.offset r.start with hi
  have hcut : t'.IsCut (t'.offset r'.start + i) := by
    have hend := h.stop'.offset_le
    -- the ends of the range are cuts anyway; strictly inside, the characters around are the same
    by_cases hfirst : i = 0
    · rw [hfirst]
      exact h.start'.isCut
    by_cases hlast : t.offset p = t.offset r.stop
    · rw [show t'.offset r'.start + i = t'.offset r'.stop by omega]
      exact h.stop'.isCut
    rw [isCut_iff]
    refine ⟨by omega, fun hbad => (isCut_iff.1 hp.isCut).2 ⟨by omega, ?_, ?_⟩⟩
    · rw [show t.offset p - 1 = t.offset r.start + (i - 1) by omega, ← hchar _ (by omega), ← hbad.2.1]
      congr 1
      omega
    · rw [show t.offset p = t.offset r.start + i by omega, ← hchar _ (by omega), ← hbad.2.2]
  have hmoved : t'.pointAt (t'.offset r'.start + i) = t.moved r r'.start p := by
    have hprefix : t.slice ⟨r.start, p⟩ = (t'.drop (t'.offset r'.start)).take i := by
      have htake : t.slice ⟨r.start, p⟩ = (t.slice r).take i := by
        rw [slice, slice, List.take_take, Nat.min_eq_left (by omega)]
      rw [htake, h.same, slice, List.take_take, Nat.min_eq_left (by omega)]
    rw [moved, hprefix, pointAt, List.take_add, pointAfter_append]
    congr 1
    exact h.start'.pointAt_offset
  rw [← hmoved]
  exact ⟨hcut.addressable, hcut.offset_pointAt⟩

/-- Between two positions that move with the text stands what stood there before. -/
lemma SameText.slice_moved (h : SameText t r t' r') (hp : t.Addressable p) (hq : t.Addressable q)
    (hsp : r.start ≤ p) (hpq : p ≤ q) (hqe : q ≤ r.stop) :
    t'.slice ⟨t.moved r r'.start p, t.moved r r'.start q⟩ = t.slice ⟨p, q⟩ := by
  obtain ⟨-, hpo⟩ := h.addressable_moved hp hsp (le_trans hpq hqe)
  obtain ⟨-, hqo⟩ := h.addressable_moved hq (le_trans hsp hpq) hqe
  have h₁ := (offset_le_offset_iff h.start hp).2 hsp
  have h₂ := (offset_le_offset_iff hp hq).2 hpq
  have h₃ := (offset_le_offset_iff hq h.stop).2 hqe
  have hlen := length_slice (a := r.start) h.stop
  have hlen' := length_slice (a := r'.start) h.stop'
  have hwhole : t.offset r.stop - t.offset r.start = t'.offset r'.stop - t'.offset r'.start := by
    rw [← hlen, ← hlen']
    exact congrArg List.length h.same
  -- both are the same part of the text of the range
  have hinner : ∀ (s : Text) (x : Range) (m n : Nat), m + n ≤ s.offset x.stop - s.offset x.start →
      ((s.slice x).drop m).take n = (s.drop (s.offset x.start + m)).take n := by
    intro s x m n hmn
    rw [slice, List.drop_take, List.drop_drop, List.take_take, Nat.min_eq_left (by omega)]
  have hfrom := hinner t r (t.offset p - t.offset r.start) (t.offset q - t.offset p) (by omega)
  have hto := hinner t' r' (t.offset p - t.offset r.start) (t.offset q - t.offset p) (by omega)
  rw [← h.same, hfrom, show t.offset r.start + (t.offset p - t.offset r.start) = t.offset p by omega]
    at hto
  rw [slice, slice, hpo, hqo, hto]
  congr 1
  omega

lemma moved_start : t.moved r q r.start = q := by
  rw [moved, slice_self, pointAfter]

lemma SameText.moved_stop (h : SameText t r t' r') : t.moved r r'.start r.stop = r'.stop := by
  rw [moved]
  change pointAfter r'.start (t.slice r) = r'.stop
  rw [h.same]
  exact pointAfter_slice h.start' h.stop' h.ordered'

/-- Positions that move with their text keep their order. -/
lemma SameText.moved_lt_moved (h : SameText t r t' r') (hp : t.Addressable p) (hq : t.Addressable q)
    (hsp : r.start ≤ p) (hpq : p < q) (hqe : q ≤ r.stop) :
    t.moved r r'.start p < t.moved r r'.start q := by
  obtain ⟨hpa, hpo⟩ := h.addressable_moved hp hsp (le_trans (le_of_lt hpq) hqe)
  obtain ⟨hqa, hqo⟩ := h.addressable_moved hq (le_trans hsp (le_of_lt hpq)) hqe
  have h₁ := (offset_le_offset_iff h.start hp).2 hsp
  have h₂ := (offset_lt_offset_iff hp hq).2 hpq
  rw [← offset_lt_offset_iff hpa hqa, hpo, hqo]
  omega

/-- A position on a later row than the start of the range keeps its column. -/
lemma moved_of_row (hs : t.Addressable r.start) (hp : t.Addressable p) (h : r.start.row < p.row) :
    t.moved r q p = ⟨q.row + (p.row - r.start.row), p.column⟩ := by
  have hle : r.start ≤ p := Or.inl h
  have hpoint := pointAfter_slice hs hp hle
  rw [pointAfter_eq_rebase] at hpoint
  rw [moved, pointAfter_eq_rebase, rebase]
  rw [rebase] at hpoint
  split_ifs at hpoint ⊢ with hrow
  · rw [← hpoint] at h
    exact absurd h (Nat.lt_irrefl _)
  · have hrows := congrArg Point.row hpoint
    have hcolumns := congrArg Point.column hpoint
    dsimp only at hrows hcolumns
    rw [Point.mk.injEq]
    exact ⟨by omega, hcolumns⟩

end Moved

/-! ## Steps to the end of a range -/

section Steps

variable {a b c : Point}

/-- Positions the same number of steps before a third are the same. -/
lemma eq_of_visualLength (ha : t.Addressable a) (hb : t.Addressable b) (hc : t.Addressable c)
    (hac : a ≤ c) (hbc : b ≤ c)
    (h : visualLength (t.slice ⟨a, c⟩) = visualLength (t.slice ⟨b, c⟩)) : a = b := by
  have hmore : ∀ {x y : Point}, t.Addressable x → t.Addressable y → y ≤ c → x < y →
      visualLength (t.slice ⟨y, c⟩) < visualLength (t.slice ⟨x, c⟩) := by
    intro x y hx hy hyc hxy
    obtain ⟨-, -, -, hstep⟩ := visualLength_slice_next hx hy hxy
    rw [visualLength_slice_add hx hy hc (le_of_lt hxy) hyc]
    omega
  by_contra hne
  by_cases hab : a < b
  · exact absurd h (Nat.ne_of_gt (hmore ha hb hbc hab))
  · have hba : b < a := by
      rw [← Point.not_le]
      exact fun hle => hne (le_antisymm hle (Point.not_lt.1 hab))
    exact absurd h (Nat.ne_of_lt (hmore hb ha hac hba))

/-- The end of a row is one step before the next row. -/
lemma visualLength_lineEnd {row : Nat} (h : row < t.lastRow) :
    visualLength (t.slice ⟨t.lineEnd row, ⟨row + 1, 0⟩⟩) = 1 := by
  obtain ⟨-, -, -, hstep⟩ := visualLength_slice_next (addressable_lineEnd t row)
    (addressable_next_row h) (lineEnd_lt_next_row h)
  rw [hstep, next_lineEnd h, slice_self, visualLength]

end Steps

end Text

/-! ## Pieces move with their range -/

namespace PartialFold

open Text

variable {t t' : Text} {r r' : Range} {width : Nat}

/-- A range inside `r` when the text of `r` starts at `q`. -/
def movedRange (t : Text) (r : Range) (q : Point) (f : Range) : Range :=
  ⟨t.moved r q f.start, t.moved r q f.stop⟩

/-- A line ending inside a range moves as a whole. -/
lemma moved_lineEnd (h : SameText t r t' r') {row : Nat} (hs : r.start.row ≤ row)
    (he : row < r.stop.row) :
    t.moved r r'.start (t.lineEnd row) = t'.lineEnd (r'.start.row + (row - r.start.row)) ∧
      t.moved r r'.start ⟨row + 1, 0⟩ = ⟨r'.start.row + (row - r.start.row) + 1, 0⟩ := by
  have hlast : row < t.lastRow := Nat.lt_of_lt_of_le he (addressable_iff.1 h.stop).1
  have hnext : t.moved r r'.start ⟨row + 1, 0⟩ =
      ⟨r'.start.row + (row - r.start.row) + 1, 0⟩ := by
    rw [moved_of_row h.start (addressable_next_row hlast) (Nat.lt_succ_of_le hs), Point.mk.injEq]
    exact ⟨by dsimp only; omega, rfl⟩
  refine ⟨?_, hnext⟩
  have hstop : t.moved r r'.start r.stop = _ :=
    moved_of_row h.start h.stop (Nat.lt_of_le_of_lt hs he)
  rw [h.moved_stop] at hstop
  have hlast' : r'.start.row + (row - r.start.row) < t'.lastRow := by
    have hrow := congrArg Point.row hstop
    have hle := (addressable_iff.1 h.stop').1
    dsimp only at hrow
    omega
  have hfrom : r.start ≤ t.lineEnd row := by
    rcases Nat.lt_or_eq_of_le hs with hlt | heq
    · rw [lineEnd_eq (Nat.le_of_lt hlast)]
      exact Or.inl hlt
    · rw [← heq]
      exact h.start.le_lineEnd
  have hto : (⟨row + 1, 0⟩ : Point) ≤ r.stop := by
    rw [le_iff]
    dsimp only
    omega
  have hlt := lineEnd_lt_next_row hlast
  have hend := addressable_lineEnd t row
  have hrow := addressable_next_row hlast
  -- both are one step before the next row
  refine eq_of_visualLength (c := ⟨r'.start.row + (row - r.start.row) + 1, 0⟩)
    (h.addressable_moved hend hfrom (le_trans (le_of_lt hlt) hto)).1 (addressable_lineEnd t' _)
    (addressable_next_row hlast') ?_ (le_of_lt (lineEnd_lt_next_row hlast')) ?_
  · rw [← hnext]
    exact le_of_lt (h.moved_lt_moved hend hrow hfrom hlt hto)
  · rw [visualLength_lineEnd hlast', ← hnext, h.slice_moved hend hrow hfrom (le_of_lt hlt) hto,
      visualLength_lineEnd hlast]

/-- The line endings of a range move with its text. -/
lemma lineEndings_moved (h : SameText t r t' r') :
    lineEndings t' r' = (lineEndings t r).map (movedRange t r r'.start) := by
  have hrows : r'.stop.row - r'.start.row = r.stop.row - r.start.row := by
    rw [← h.moved_stop, moved, row_pointAfter]
    have hrow := congrArg Point.row (pointAfter_slice h.start h.stop h.ordered)
    rw [row_pointAfter] at hrow
    omega
  rw [lineEndings, lineEndings, hrows, List.map_map]
  refine List.map_congr_left fun i hi => ?_
  have hi' : r.start.row + i < r.stop.row := by
    have := List.mem_range.1 hi
    omega
  have hlast : r.start.row + i < t.lastRow := Nat.lt_of_lt_of_le hi' (addressable_iff.1 h.stop).1
  obtain ⟨hend, hnext⟩ := moved_lineEnd h (Nat.le_add_right _ i) hi'
  rw [Nat.add_sub_cancel_left] at hend hnext
  have hlast' : r'.start.row + i < t'.lastRow :=
    Nat.lt_of_lt_of_le (by omega) (addressable_iff.1 h.stop').1
  rw [Function.comp_apply, between, between, if_pos (le_of_lt (lineEnd_lt_next_row hlast')),
    if_pos (le_of_lt (lineEnd_lt_next_row hlast)), movedRange, hend, hnext]

/-- Where the front of a fold stops moves with its text. -/
lemma frontStop_moved (h : SameText t r t' r') (hw : 0 < width)
    (hwl : width ≤ (t.slice r).visualLength) :
    frontStop t' r' width = t.moved r r'.start (frontStop t r width) := by
  obtain ⟨hqa, hsq, hqe, hlen⟩ := frontStop_spec h.start h.stop hw hwl
  obtain ⟨hqa', -, hqe', hlen'⟩ := frontStop_spec h.start' h.stop' hw (by rwa [← h.same])
  have hle : t.moved r r'.start (frontStop t r width) ≤ r'.stop := by
    rcases Point.eq_or_lt_of_le hqe with heq | hlt
    · rw [heq, h.moved_stop]
      exact le_refl _
    · rw [← h.moved_stop]
      exact le_of_lt (h.moved_lt_moved hqa h.stop (le_of_lt hsq) hlt (le_refl _))
  refine eq_of_visualLength hqa' (h.addressable_moved hqa (le_of_lt hsq) hqe).1 h.stop' hqe' hle ?_
  have hsame := h.slice_moved hqa h.stop (le_of_lt hsq) hqe (le_refl _)
  rw [h.moved_stop] at hsame
  rw [hsame]
  omega

/-- Where the text of a range is the same, so are the pieces that fold it. -/
lemma pieces_moved (h : SameText t r t' r') (hw : 0 < width)
    (hwl : width ≤ (t.slice r).visualLength) :
    pieces t' r' width = (pieces t r width).map (movedRange t r r'.start) := by
  rw [pieces_eq h.start' h.stop' hw (by rwa [← h.same]), pieces_eq h.start h.stop hw hwl,
    List.map_append, lineEndings_moved h, frontStop_moved h hw hwl, List.map_singleton, movedRange,
    moved_start]

end PartialFold

/-! ## Positions under an edit -/

namespace Edit

open Text

variable {t inserted : Text} {edit : Edit} {p q : Point} {r : Range}

/-- An edit that replaces the text between two positions of a text by `inserted`. -/
structure Replaces (t inserted : Text) (edit : Edit) : Prop where
  start : t.Addressable edit.start
  oldStop : t.Addressable edit.oldStop
  ordered : edit.start ≤ edit.oldStop
  newStop : edit.newStop = pointAfter edit.start inserted

/-- The text after an edit. -/
abbrev apply (edit : Edit) (t inserted : Text) : Text :=
  t.splice ⟨edit.start, edit.oldStop⟩ inserted

/-- Moving a point and laying text out from it can be done in either order. -/
lemma shift_pointAfter (h : edit.oldStop ≤ p) (u : Text) :
    edit.shift (pointAfter p u) = pointAfter (edit.shift p) u := by
  induction u generalizing p with
  | nil => rfl
  | cons c u ih =>
    rw [le_iff] at h
    rw [pointAfter, pointAfter]
    split_ifs with hc
    · have hrow : edit.shift ⟨p.row + 1, 0⟩ = ⟨(edit.shift p).row + 1, 0⟩ := by
        simp only [shift]
        split_ifs <;> simp only [Point.mk.injEq, and_true] <;> omega
      rw [ih (Or.inl (by dsimp only; omega)), hrow]
    · have hcolumn : edit.shift ⟨p.row, p.column + 1⟩ =
          ⟨(edit.shift p).row, (edit.shift p).column + 1⟩ := by
        simp only [shift]
        split_ifs <;> simp only [Point.mk.injEq, true_and]
        omega
      rw [ih (by rw [le_iff]; dsimp only; omega), hcolumn]

lemma shift_oldStop : edit.shift edit.oldStop = edit.newStop := by
  simp [shift]

/-- Replacing text without lone returns by text without lone returns brings none in. -/
lemma Replaces.noLoneReturn (h : Replaces t inserted edit) (ht : t.NoLoneReturn)
    (hi : inserted.NoLoneReturn) : (edit.apply t inserted).NoLoneReturn :=
  ((ht.take h.start.isCut).append hi).append (ht.drop _)

/-- A position before the edit stays. -/
lemma Replaces.addressable_before (h : Replaces t inserted edit) (ht : t.NoLoneReturn)
    (hp : t.Addressable p) (hle : p ≤ edit.start) :
    (edit.apply t inserted).Addressable p ∧ (edit.apply t inserted).offset p = t.offset p := by
  have hoff := (offset_le_offset_iff hp h.start).2 hle
  have hsplit : edit.apply t inserted = t.take (t.offset p) ++
      (t.slice ⟨p, edit.start⟩ ++ inserted ++ t.drop (t.offset edit.oldStop)) := by
    rw [apply, splice, ← take_append_slice hoff]
    simp only [List.append_assoc]
  have hpoint : pointAfter .origin (t.take (t.offset p)) = p := hp.pointAt_offset
  have hnew := ((ht.take hp.isCut).cleanSeam
    (t.slice ⟨p, edit.start⟩ ++ inserted ++ t.drop (t.offset edit.oldStop))).addressable
  rwa [← hsplit, hpoint, List.length_take, Nat.min_eq_left hp.offset_le] at hnew

/-- A position after the edit is shifted. -/
lemma Replaces.addressable_after (h : Replaces t inserted edit) (ht : t.NoLoneReturn)
    (hi : inserted.NoLoneReturn) (hp : t.Addressable p) (hle : edit.oldStop ≤ p) :
    (edit.apply t inserted).Addressable (edit.shift p) ∧
      (edit.apply t inserted).offset (edit.shift p) =
        t.offset edit.start + inserted.length + (t.offset p - t.offset edit.oldStop) := by
  have hoff := (offset_le_offset_iff h.oldStop hp).2 hle
  -- what stands before the shifted position: it ends where the position before the edit ended
  set before := t.take (t.offset edit.start) ++ inserted ++ t.slice ⟨edit.oldStop, p⟩ with hbefore
  have hsplit : edit.apply t inserted = before ++ t.drop (t.offset p) := by
    have hrest : t.drop (t.offset edit.oldStop) = t.slice ⟨edit.oldStop, p⟩ ++ t.drop (t.offset p) := by
      rw [slice]
      conv_lhs => rw [← List.take_append_drop (t.offset p - t.offset edit.oldStop)
        (t.drop (t.offset edit.oldStop))]
      rw [List.drop_drop, show t.offset edit.oldStop + (t.offset p - t.offset edit.oldStop) =
        t.offset p by omega]
    rw [apply, splice, hrest, hbefore]
    simp only [List.append_assoc]
  have hpoint : pointAfter .origin before = edit.shift p := by
    rw [hbefore, pointAfter_append, pointAfter_append]
    change pointAfter (pointAfter (t.pointAt (t.offset edit.start)) inserted) _ = _
    rw [h.start.pointAt_offset, ← h.newStop, ← shift_oldStop, ← shift_pointAfter (le_refl _),
      pointAfter_slice h.oldStop hp hle]
  have hlone : NoLoneReturn before := by
    rw [hbefore, slice, ← List.drop_take]
    exact ((ht.take h.start.isCut).append hi).append ((ht.take hp.isCut).drop _)
  have hnew := (hlone.cleanSeam (t.drop (t.offset p))).addressable
  have hlength : before.length =
      t.offset edit.start + inserted.length + (t.offset p - t.offset edit.oldStop) := by
    rw [hbefore, List.length_append, List.length_append, List.length_take,
      Nat.min_eq_left h.start.offset_le, length_slice hp]
  rwa [← hsplit, hpoint, hlength] at hnew

/-! ## Ranges under an edit -/

/-- An edit leaves a range alone if it ends before the range or starts behind it. -/
lemma hitsInside_eq_false : edit.hitsInside r = false ↔ r.stop ≤ edit.start ∨ edit.oldStop ≤ r.start := by
  rw [hitsInside, decide_eq_false_iff_not, not_and_or, Point.not_lt, Point.not_lt]

lemma mapRange_of_after (h : edit.oldStop ≤ r.start) :
    edit.mapRange r = ⟨edit.shift r.start, edit.shift r.stop⟩ := by
  rw [mapRange, if_pos h]

lemma mapRange_of_before (h : ¬edit.oldStop ≤ r.start) (hle : r.stop ≤ edit.start) :
    edit.mapRange r = r := by
  rw [mapRange, if_neg h, if_pos hle]

/-- The text of a range behind an edit stands at the moved range afterwards. -/
lemma Replaces.sameText_after (h : Replaces t inserted edit) (ht : t.NoLoneReturn)
    (hi : inserted.NoLoneReturn) (hs : t.Addressable r.start) (he : t.Addressable r.stop)
    (hr : r.start ≤ r.stop) (hle : edit.oldStop ≤ r.start) :
    SameText t r (edit.apply t inserted) ⟨edit.shift r.start, edit.shift r.stop⟩ := by
  obtain ⟨hsa, hso⟩ := h.addressable_after ht hi hs hle
  obtain ⟨hea, heo⟩ := h.addressable_after ht hi he (le_trans hle hr)
  refine ⟨hs, he, hsa, hea, hr, shift_le_shift hle hr, ?_⟩
  have hoff := (offset_le_offset_iff h.oldStop hs).2 hle
  have hlength : (t.take (t.offset edit.start) ++ inserted).length =
      t.offset edit.start + inserted.length := by
    rw [List.length_append, List.length_take, Nat.min_eq_left h.start.offset_le]
  rw [slice, slice, hso, heo, apply, splice, ← hlength, List.drop_length_add_append, List.drop_drop]
  dsimp only
  congr 1
  · omega
  · congr 1
    omega

/-- The text of a range in front of an edit stands where it stood. -/
lemma Replaces.sameText_before (h : Replaces t inserted edit) (ht : t.NoLoneReturn)
    (hs : t.Addressable r.start) (he : t.Addressable r.stop) (hr : r.start ≤ r.stop)
    (hle : r.stop ≤ edit.start) : SameText t r (edit.apply t inserted) r := by
  obtain ⟨hsa, hso⟩ := h.addressable_before ht hs (le_trans hr hle)
  obtain ⟨hea, heo⟩ := h.addressable_before ht he hle
  refine ⟨hs, he, hsa, hea, hr, hr, ?_⟩
  have hoff := (offset_le_offset_iff he h.start).2 hle
  have htake : (edit.apply t inserted).take (t.offset r.stop) = t.take (t.offset r.stop) := by
    rw [apply, splice, List.append_assoc, List.take_append_of_le_length
      (by rw [List.length_take, Nat.min_eq_left h.start.offset_le]; exact hoff), List.take_take,
      Nat.min_eq_left hoff]
  rw [slice, slice, hso, heo, ← List.drop_take, ← List.drop_take, htake]

/-- A range that an edit does not hit keeps its text, and the ranges inside it move along. -/
theorem Replaces.sameText (h : Replaces t inserted edit) (ht : t.NoLoneReturn)
    (hi : inserted.NoLoneReturn) (hs : t.Addressable r.start) (he : t.Addressable r.stop)
    (hr : r.start ≤ r.stop) (hmiss : edit.hitsInside r = false) :
    SameText t r (edit.apply t inserted) (edit.mapRange r) ∧
      ∀ f : Range, (t.Addressable f.start ∧ t.Addressable f.stop) ∧ r.start ≤ f.start ∧
          f.start < f.stop ∧ f.stop ≤ r.stop →
        edit.hitsInside f = false ∧
          edit.mapRange f = PartialFold.movedRange t r (edit.mapRange r).start f := by
  -- a range that is not hit stands wholly after the edit or wholly before it
  by_cases hafter : edit.oldStop ≤ r.start
  · rw [mapRange_of_after hafter]
    refine ⟨h.sameText_after ht hi hs he hr hafter, ?_⟩
    rintro f ⟨⟨hfs, hfe⟩, hrf, hlt, hfr⟩
    have hshift : ∀ p, t.Addressable p → r.start ≤ p →
        t.moved r (edit.shift r.start) p = edit.shift p := fun p hp hle => by
      rw [moved, ← shift_pointAfter hafter, pointAfter_slice hs hp hle]
    refine ⟨hitsInside_eq_false.2 (Or.inr (le_trans hafter hrf)), ?_⟩
    rw [mapRange_of_after (le_trans hafter hrf), PartialFold.movedRange, hshift _ hfs hrf,
      hshift _ hfe (le_trans hrf (le_of_lt hlt))]
  · have hbefore := (hitsInside_eq_false.1 hmiss).resolve_right hafter
    rw [mapRange_of_before hafter hbefore]
    refine ⟨h.sameText_before ht hs he hr hbefore, ?_⟩
    rintro f ⟨⟨hfs, hfe⟩, hrf, hlt, hfr⟩
    have hstay : ∀ p, t.Addressable p → r.start ≤ p → t.moved r r.start p = p := fun p hp hle => by
      rw [moved, pointAfter_slice hs hp hle]
    have hstop := le_trans hfr hbefore
    refine ⟨hitsInside_eq_false.2 (Or.inl hstop), ?_⟩
    have hnot : ¬edit.oldStop ≤ f.start :=
      Point.not_le.2 (lt_of_lt_of_le hlt (le_trans hstop h.ordered))
    rw [mapRange_of_before hnot hstop, PartialFold.movedRange, hstay _ hfs hrf,
      hstay _ hfe (le_trans hrf (le_of_lt hlt))]

/-- Ranges that an edit does not hit stay apart. -/
lemma Replaces.mapRange_apart (h : Replaces t inserted edit) {r' : Range} (hr : r.start < r.stop)
    (hmiss : edit.hitsInside r = false) (hmiss' : edit.hitsInside r' = false) (hapart : r.stop ≤ r'.start) :
    (edit.mapRange r).stop ≤ (edit.mapRange r').start := by
  by_cases hafter : edit.oldStop ≤ r.start
  · have hstop := le_trans hafter (le_of_lt hr)
    rw [mapRange_of_after hafter, mapRange_of_after (le_trans hstop hapart)]
    exact shift_le_shift hstop hapart
  · have hbefore := (hitsInside_eq_false.1 hmiss).resolve_right hafter
    rw [mapRange_of_before hafter hbefore]
    by_cases hafter' : edit.oldStop ≤ r'.start
    · rw [mapRange_of_after hafter']
      have hnew : edit.start ≤ edit.newStop := h.newStop ▸ le_pointAfter _ _
      exact le_trans hbefore (le_trans hnew (newStop_le_shift hafter'))
    · rwa [mapRange_of_before hafter' ((hitsInside_eq_false.1 hmiss').resolve_right hafter')]

/-! ## Rows under an edit -/

/-- The row of a position is the number of line feeds in front of it. -/
lemma count_take_offset (hp : t.Addressable p) : (t.take (t.offset p)).count '\n' = p.row := by
  have hrow := congrArg Point.row hp.pointAt_offset
  rw [pointAt, row_pointAfter] at hrow
  simpa [Point.origin] using hrow

/-- An edit has as many rows after it as before. -/
lemma Replaces.lastRow_apply (h : Replaces t inserted edit) :
    (edit.apply t inserted).lastRow + edit.oldStop.row = edit.newStop.row + t.lastRow := by
  have hstart := count_take_offset h.start
  have hstop := count_take_offset h.oldStop
  have hsplit := congrArg (List.count '\n') (List.take_append_drop (t.offset edit.oldStop) t)
  rw [List.count_append, hstop] at hsplit
  rw [h.newStop, row_pointAfter]
  simp only [lastRow, apply, splice, List.count_append, hstart]
  omega

/-- A range that an edit keeps out of stays within the rows of the text. -/
lemma Replaces.row_mapRange_le (h : Replaces t inserted edit) (hmiss : edit.hitsInside r = false)
    (hr : r.stop.row ≤ t.lastRow) (hordered : r.start ≤ r.stop) :
    (edit.mapRange r).stop.row ≤ (edit.apply t inserted).lastRow := by
  have hlast := h.lastRow_apply
  have hoff : edit.oldStop.row ≤ t.lastRow := (addressable_iff.1 h.oldStop).1
  have hnew : edit.start.row ≤ edit.newStop.row := by
    rw [h.newStop, row_pointAfter]
    omega
  by_cases hafter : edit.oldStop ≤ r.start
  · rw [mapRange_of_after hafter]
    have hle := le_trans hafter hordered
    rw [le_iff] at hle
    unfold shift
    dsimp only
    split <;> dsimp only <;> omega
  · have hbefore := (hitsInside_eq_false.1 hmiss).resolve_right hafter
    rw [mapRange_of_before hafter hbefore]
    rw [le_iff] at hbefore
    omega

end Edit

namespace Editor

open Text

/-- The edit that a replacement makes is one at positions of the text. -/
lemma replaces_editOf (e : Editor) (r : Range) (inserted : Text) :
    (e.editOf r inserted).Replaces e.text inserted := by
  refine ⟨?_, ?_, between_ordered _ _, rfl⟩
  · show e.text.Addressable (e.clipRange r).start
    unfold clipRange between
    split_ifs <;> exact addressable_clip _ _
  · show e.text.Addressable (e.clipRange r).stop
    unfold clipRange between
    split_ifs <;> exact addressable_clip _ _

/-- A marker that is valid after an edit was valid before and has not been hit. -/
lemma valid_splice {e : Editor} {edit : Edit} {inserted : Text} {k : MarkerId} {m : Marker}
    (hm : (e.splice edit inserted).markers.get? k = some m) (hv : m.valid = true) :
    ∃ m₀, e.markers.get? k = some m₀ ∧ m₀.valid = true ∧ edit.hitsInside m₀.range = false ∧
      m.range = edit.mapRange m₀.range := by
  rw [splice, Table.get?_map, Option.map_eq_some_iff] at hm
  obtain ⟨m₀, hm₀, rfl⟩ := hm
  rw [Marker.afterEdit] at hv ⊢
  split_ifs at hv ⊢ with hvalid
  · exact ⟨m₀, hm₀, hvalid, by simpa using hv, rfl⟩
  · exact absurd hv hvalid

end Editor

end TemplateFolding
