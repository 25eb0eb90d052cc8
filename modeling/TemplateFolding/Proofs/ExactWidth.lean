import TemplateFolding.Folding.PartialFold
import TemplateFolding.Proofs.EditorRuns
import TemplateFolding.Proofs.ScreenText

/-!
# The width of a partial fold

A range is folded down to `width` columns by a fold over each of its line endings and one over a
piece at its front. What is drawn of them is one placeholder for the front piece and, after it, the
rest of the range with a placeholder for each line ending. That rest is `width - 1` steps long and
every step of it takes one column.
-/

namespace TemplateFolding

open Text Point Range

namespace PartialFold

variable {t : Text} {a b c : Point}

/-! ## Line endings -/

lemma lineEndings_of_le (h : b.row ≤ a.row) : lineEndings t ⟨a, b⟩ = [] := by
  simp [lineEndings, Nat.sub_eq_zero_of_le h]

/-- The line endings between two positions depend on their rows only. -/
lemma lineEndings_append (hab : a.row ≤ b.row) (hbc : b.row ≤ c.row) :
    lineEndings t ⟨a, c⟩ = lineEndings t ⟨a, b⟩ ++ lineEndings t ⟨b, c⟩ := by
  have hsplit : c.row - a.row = (b.row - a.row) + (c.row - b.row) := by omega
  have hrow : ∀ i, a.row + (b.row - a.row + i) = b.row + i := by omega
  simp only [lineEndings, hsplit, List.range_add, List.map_append, List.map_map, Function.comp_def,
    hrow]

/-- The first line ending, and those from the next row on. -/
lemma lineEndings_cons (hb : t.Addressable b) (h : a.row < b.row) :
    lineEndings t ⟨a, b⟩ =
      ⟨t.lineEnd a.row, ⟨a.row + 1, 0⟩⟩ :: lineEndings t ⟨⟨a.row + 1, 0⟩, b⟩ := by
  have hlast : a.row < t.lastRow := Nat.lt_of_lt_of_le h (addressable_iff.1 hb).1
  have hone : lineEndings t ⟨a, ⟨a.row + 1, 0⟩⟩ = [⟨t.lineEnd a.row, ⟨a.row + 1, 0⟩⟩] := by
    simp [lineEndings, between, le_of_lt (lineEnd_lt_next_row hlast)]
  rw [lineEndings_append (b := ⟨a.row + 1, 0⟩) (Nat.le_succ _) h, hone, List.singleton_append]

/-- The line endings of a range are laid out in it, and their ends can be addressed. -/
lemma laid_lineEndings (ha : t.Addressable a) (hb : t.Addressable b) (h : a ≤ b) :
    Laid a b (lineEndings t ⟨a, b⟩) ∧ AddressableEnds t (lineEndings t ⟨a, b⟩) := by
  generalize hn : b.row - a.row = n
  induction n generalizing a with
  | zero =>
    rw [lineEndings_of_le (by omega)]
    exact ⟨h, by simp [AddressableEnds]⟩
  | succ n ih =>
    have hrow : a.row < b.row := by omega
    have hlast : a.row < t.lastRow := Nat.lt_of_lt_of_le hrow (addressable_iff.1 hb).1
    have hnext : (⟨a.row + 1, 0⟩ : Point) ≤ b := by
      rw [le_iff]
      simp only
      omega
    obtain ⟨hlaid, hends⟩ := ih (addressable_next_row hlast) hnext (by simp only; omega)
    rw [lineEndings_cons hb hrow]
    refine ⟨⟨ha.le_lineEnd, lineEnd_lt_next_row hlast, hlaid⟩, fun r hr => ?_⟩
    rcases List.mem_cons.1 hr with rfl | hr
    · exact ⟨addressable_lineEnd t a.row, addressable_next_row hlast⟩
    · exact hends r hr

/-- With its line endings folded, a stretch of text is one screen line of one column a step. -/
lemma shownBetween_lineEndings (ha : t.Addressable a) (hb : t.Addressable b) (h : a ≤ b) :
    '\n' ∉ shownBetween t a b (lineEndings t ⟨a, b⟩) ∧
      (shownBetween t a b (lineEndings t ⟨a, b⟩)).length = visualLength (t.slice ⟨a, b⟩) := by
  generalize hn : b.row - a.row = n
  induction n generalizing a with
  | zero =>
    have hrow : a.row = b.row := by
      rw [le_iff] at h
      omega
    have hlf := notMem_slice_of_row ha hb h hrow
    rw [lineEndings_of_le (by omega), shownBetween, visualLength_of_notMem hlf]
    exact ⟨hlf, rfl⟩
  | succ n ih =>
    have hrow : a.row < b.row := by omega
    have hlast : a.row < t.lastRow := Nat.lt_of_lt_of_le hrow (addressable_iff.1 hb).1
    have hend := addressable_lineEnd t a.row
    have hnext : (⟨a.row + 1, 0⟩ : Point) ≤ b := by
      rw [le_iff]
      simp only
      omega
    obtain ⟨hlf, hlen⟩ := ih (addressable_next_row hlast) hnext (by simp only; omega)
    have hrowEnd : a.row = (t.lineEnd a.row).row := by rw [lineEnd_eq (Nat.le_of_lt hlast)]
    have hlf' := notMem_slice_of_row ha hend ha.le_lineEnd hrowEnd
    have hendb : t.lineEnd a.row < b := lt_of_lt_of_le (lineEnd_lt_next_row hlast) hnext
    rw [lineEndings_cons hb hrow, shownBetween]
    constructor
    · rw [List.mem_append, List.mem_cons, not_or, not_or]
      exact ⟨hlf', by decide, hlf⟩
    · -- the line ending is the one step between the two parts
      have hstep := (visualLength_slice_next hend hb hendb).2.2.2
      rw [next_lineEnd hlast] at hstep
      rw [← slice_append ((offset_le_offset_iff ha hend).2 ha.le_lineEnd)
        ((offset_le_offset_iff hend hb).2 (le_of_lt hendb)),
        visualLength_append (cleanSeam_slice ha hend ha.le_lineEnd), hstep,
        visualLength_of_notMem hlf', List.length_append, List.length_cons, hlen]

/-! ## The pieces of a partial fold -/

/-- Where the piece at the front of a range stops. -/
def frontStop (t : Text) (r : Range) (width : Nat) : Point :=
  t.advance r.start ((t.slice r).visualLength - width + 1)

section Pieces

variable {r : Range} {width : Nat}

lemma start_le_stop_of_width (hs : t.Addressable r.start) (he : t.Addressable r.stop)
    (h : 0 < (t.slice r).visualLength) : r.start < r.stop := by
  rw [← offset_lt_offset_iff hs he]
  by_contra hge
  have hnil : t.slice r = [] := by
    rw [slice, Nat.sub_eq_zero_of_le (Nat.le_of_not_lt hge), List.take_zero]
  simp [hnil, visualLength] at h

/-- The front of a fold ends inside its range, so that with its one mark the rest has the width. -/
lemma frontStop_spec (hs : t.Addressable r.start) (he : t.Addressable r.stop) (hw : 0 < width)
    (hwl : width ≤ (t.slice r).visualLength) :
    t.Addressable (frontStop t r width) ∧ r.start < frontStop t r width ∧
      frontStop t r width ≤ r.stop ∧
      visualLength (t.slice ⟨frontStop t r width, r.stop⟩) + 1 = width := by
  have hlt := start_le_stop_of_width hs he (Nat.lt_of_lt_of_le hw hwl)
  obtain ⟨h₁, h₂, h₃, h₄⟩ :=
    advance_spec (n := (t.slice r).visualLength - width + 1) hs he (le_of_lt hlt)
      (by change _ ≤ (t.slice r).visualLength; omega)
  change _ + _ = (t.slice r).visualLength at h₄
  rw [← frontStop] at h₁ h₂ h₃ h₄
  refine ⟨h₁, ?_, h₃, by omega⟩
  by_contra hge
  rw [le_antisymm (Point.not_lt.1 hge) h₂] at h₄
  change (t.slice r).visualLength + _ = (t.slice r).visualLength at h₄
  omega

/-- The pieces are the line endings and the front. -/
lemma pieces_eq (hs : t.Addressable r.start) (he : t.Addressable r.stop) (hw : 0 < width)
    (hwl : width ≤ (t.slice r).visualLength) :
    pieces t r width = lineEndings t r ++ [⟨r.start, frontStop t r width⟩] := by
  rw [pieces, ← frontStop, between, if_pos (le_of_lt (frontStop_spec hs he hw hwl).2.1)]

/-- The pieces are drawn as the front piece and the line endings after it. -/
lemma effectiveFolds_pieces (hs : t.Addressable r.start) (he : t.Addressable r.stop)
    (hw : 0 < width) (hwl : width ≤ (t.slice r).visualLength) :
    effectiveFolds (pieces t r width) =
      ⟨r.start, frontStop t r width⟩ :: lineEndings t ⟨frontStop t r width, r.stop⟩ := by
  obtain ⟨hqa, hsq, hqe, -⟩ := frontStop_spec hs he hw hwl
  set q := frontStop t r width with hq
  have hrow₁ : r.start.row ≤ q.row := by
    rw [lt_iff] at hsq
    omega
  have hrow₂ : q.row ≤ r.stop.row := by
    rw [le_iff] at hqe
    omega
  obtain ⟨hlaid₁, -⟩ := laid_lineEndings hs hqa (le_of_lt hsq)
  obtain ⟨hlaid₂, -⟩ := laid_lineEndings hqa he hqe
  -- the line endings before `q` lie under the front piece, the others after it
  have hperm : (pieces t r width).Perm
      ((⟨r.start, q⟩ :: lineEndings t ⟨r.start, q⟩) ++ lineEndings t ⟨q, r.stop⟩) := by
    rw [pieces_eq hs he hw hwl, lineEndings_append hrow₁ hrow₂]
    exact List.perm_append_comm
  rw [effectiveFolds_congr hperm, effectiveFolds_append (a := q), effectiveFolds_of_laid hlaid₂,
    effectiveFolds_cover (a := r.start) (b := q) (by simp), List.singleton_append]
  · intro f hf
    rcases List.mem_cons.1 hf with rfl | hf
    · exact ⟨le_refl _, hsq, le_refl _⟩
    · exact hlaid₁.mem hf
  · intro f hf _
    rcases List.mem_cons.1 hf with rfl | hf
    · exact le_refl _
    · exact (hlaid₁.mem hf).2.2
  · intro f hf _
    exact (hlaid₂.mem hf).1
  · intro f hf
    rcases List.mem_append.1 hf with hf | hf
    · rcases List.mem_cons.1 hf with rfl | hf
      · exact le_of_lt hsq
      · exact le_of_lt (hlaid₁.mem hf).2.1
    · exact le_of_lt (hlaid₂.mem hf).2.1

/-- The pieces are not empty and lie inside the range, with ends that can be addressed. -/
lemma laid_pieces (hs : t.Addressable r.start) (he : t.Addressable r.stop) (hw : 0 < width)
    (hwl : width ≤ (t.slice r).visualLength) :
    ∀ f ∈ pieces t r width, (t.Addressable f.start ∧ t.Addressable f.stop) ∧
      r.start ≤ f.start ∧ f.start < f.stop ∧ f.stop ≤ r.stop := by
  obtain ⟨hqa, hsq, hqe, -⟩ := frontStop_spec hs he hw hwl
  obtain ⟨hlaid, hends⟩ := laid_lineEndings hs he (le_trans (le_of_lt hsq) hqe)
  intro f hf
  rw [pieces_eq hs he hw hwl] at hf
  rcases List.mem_append.1 hf with hf | hf
  · exact ⟨hends f hf, hlaid.mem hf⟩
  · rw [List.mem_singleton.1 hf]
    exact ⟨⟨hs, hqa⟩, le_refl _, hsq, hqe⟩

/-- Folded into pieces, a range is shown as `width` characters of one line. -/
lemma shownBetween_pieces (hs : t.Addressable r.start) (he : t.Addressable r.stop) (hw : 0 < width)
    (hwl : width ≤ (t.slice r).visualLength) :
    '\n' ∉ shownBetween t r.start r.stop (effectiveFolds (pieces t r width)) ∧
      (shownBetween t r.start r.stop (effectiveFolds (pieces t r width))).length = width := by
  obtain ⟨hqa, -, hqe, hlen⟩ := frontStop_spec hs he hw hwl
  obtain ⟨hlf, hshown⟩ := shownBetween_lineEndings hqa he hqe
  rw [effectiveFolds_pieces hs he hw hwl, shownBetween, slice_self, List.nil_append]
  refine ⟨?_, ?_⟩
  · rw [List.mem_cons, not_or]
    exact ⟨by decide, hlf⟩
  · rw [List.length_cons, hshown, hlen]

end Pieces

end PartialFold

/-! ## A range among other folds -/

/-- Folds that stand clear of a range: none that is not empty overlaps it. -/
structure ClearOf (t : Text) (r : Range) (others : List Range) : Prop where
  ordered : ∀ f ∈ others, f.start ≤ f.stop
  ends : AddressableEnds t others
  clear : ∀ f ∈ others, f.start < f.stop → f.stop ≤ r.start ∨ r.stop ≤ f.start

/-- The folds of a list that stop before a position. -/
def foldsBefore (p : Point) (l : List Range) : List Range :=
  l.filter fun f => decide (f.stop ≤ p)

/-- The folds of a list that do not stop before a position. -/
def foldsAfter (p : Point) (l : List Range) : List Range :=
  l.filter fun f => !decide (f.stop ≤ p)

lemma foldsBefore_append_foldsAfter (p : Point) (l : List Range) :
    (foldsBefore p l ++ foldsAfter p l).Perm l :=
  List.filter_append_perm _ _

/-- Folds that are clear of a range and start before it are within the text before it. -/
lemma ClearOf.foldsBefore {t : Text} {r : Range} {others : List Range} (h : ClearOf t r others) :
    FoldsWithin t .origin r.start (foldsBefore r.start others) := by
  intro f hf
  obtain ⟨hmem, hstop⟩ := List.mem_filter.1 hf
  exact ⟨h.ends f hmem, h.ordered f hmem, fun _ => ⟨origin_le _, of_decide_eq_true hstop⟩⟩

/-- The other folds that are clear of a range are within the text behind it. -/
lemma ClearOf.foldsAfter {t : Text} {r : Range} {others : List Range} (h : ClearOf t r others) :
    FoldsWithin t r.stop t.fullRange.stop (foldsAfter r.start others) := by
  intro f hf
  obtain ⟨hmem, hstop⟩ := List.mem_filter.1 hf
  have hafter : ¬f.stop ≤ r.start := by simpa using hstop
  exact ⟨h.ends f hmem, h.ordered f hmem, fun hlt =>
    ⟨(h.clear f hmem hlt).resolve_left hafter, le_stop (h.ends f hmem).2⟩⟩

/-- What is shown before a range that the folds stand clear of. -/
def shownBefore (t : Text) (r : Range) (others : List Range) : Text :=
  shownBetween t .origin r.start (effectiveFolds (foldsBefore r.start others))

/-- What is shown after a range that the folds stand clear of. -/
def shownAfter (t : Text) (r : Range) (others : List Range) : Text :=
  shownBetween t r.stop t.fullRange.stop (effectiveFolds (foldsAfter r.start others))

/-- What is shown of a range folded from within. -/
def shownInside (t : Text) (r : Range) (inner : List Range) : Text :=
  shownBetween t r.start r.stop (effectiveFolds inner)

section Inside

variable {t : Text} {r : Range} {others folds : List Range}

/-- Folds inside a range, and others that stand clear of it: the screen is what is shown before the
range, of it and after it, and the ends of the range are drawn where these meet. -/
theorem screen_of_inner (inner : List Range) (hs : t.Addressable r.start)
    (he : t.Addressable r.stop) (hr : r.start ≤ r.stop) (ho : ClearOf t r others)
    (hi : FoldsWithin t r.start r.stop inner) (hp : folds.Perm (others ++ inner)) :
    screenLines t folds =
        (shownBefore t r others ++ (shownInside t r inner ++ shownAfter t r others)).lines ∧
      screenPoint t folds r.start = pointAfter .origin (shownBefore t r others) ∧
      screenPoint t folds r.stop =
        pointAfter .origin (shownBefore t r others ++ shownInside t r inner) ∧
      CleanSeam (shownBefore t r others) (shownInside t r inner ++ shownAfter t r others) ∧
      CleanSeam (shownBefore t r others ++ shownInside t r inner) (shownAfter t r others) := by
  have hstop := addressable_stop t
  have horigin := addressable_origin t
  have hB := ho.foldsBefore
  have hA := ho.foldsAfter
  have hBi := hB.append hi (origin_le _) hr
  have hiA := hi.append hA hr (le_stop he)
  have hperm : folds.Perm (foldsBefore r.start others ++ (inner ++ foldsAfter r.start others)) := by
    refine hp.trans (((foldsBefore_append_foldsAfter r.start others).symm.append_right inner).trans ?_)
    rw [List.append_assoc]
    exact List.perm_append_comm.append_left _
  -- what is shown up to the end of the range, and from its start on
  have hshown : shownBetween t .origin r.stop
      (effectiveFolds (foldsBefore r.start others ++ inner)) =
      shownBefore t r others ++ shownInside t r inner :=
    hB.shownBetween_append hi horigin hs he (origin_le _) hr
  have hshown' : shownBetween t r.start t.fullRange.stop
      (effectiveFolds (inner ++ foldsAfter r.start others)) =
      shownInside t r inner ++ shownAfter t r others :=
    hi.shownBetween_append hA hs he hstop hr (le_stop he)
  refine ⟨?_, ?_, ?_, ?_, ?_⟩
  · rw [screenLines, foldedFrom_eq, effectiveFolds_congr hperm,
      hB.shownBetween_append hiA horigin hs hstop (origin_le _) (le_stop hs), hshown']
    rfl
  · exact hB.screenPoint hiA hs (le_stop hs) hperm
  · rw [← hshown]
    rw [← List.append_assoc] at hperm
    exact hBi.screenPoint hA he (le_stop he) hperm
  · rw [← hshown']
    exact cleanSeam_shownBetween horigin hs hB.addressableEnds (hB.laid (origin_le _))
  · rw [← hshown]
    exact cleanSeam_shownBetween horigin he hBi.addressableEnds (hBi.laid (origin_le _))

/-- A range folded into pieces among others that stand clear of it takes `width` columns. -/
lemma screenPoint_pieces {width : Nat} (hs : t.Addressable r.start) (he : t.Addressable r.stop)
    (ho : ClearOf t r others) (hw : 0 < width) (hwl : width ≤ (t.slice r).visualLength)
    (hp : folds.Perm (others ++ PartialFold.pieces t r width)) :
    (screenPoint t folds r.stop) =
      ⟨(screenPoint t folds r.start).row, (screenPoint t folds r.start).column + width⟩ := by
  have hr := PartialFold.start_le_stop_of_width hs he (Nat.lt_of_lt_of_le hw hwl)
  obtain ⟨-, hstart, hstop, -⟩ :=
    screen_of_inner _ hs he (le_of_lt hr) ho (.of_lt (PartialFold.laid_pieces hs he hw hwl)) hp
  obtain ⟨hlf, hlen⟩ := PartialFold.shownBetween_pieces hs he hw hwl
  rw [hstart, hstop, pointAfter_append, shownInside, pointAfter_of_notMem hlf, hlen]

end Inside

/-! ## Making a partial fold -/

/-- There is nothing to clip in a range that can be addressed and has its ends in order. -/
lemma Editor.clipRange_eq {e : Editor} {r : Range} (hs : e.text.Addressable r.start)
    (he : e.text.Addressable r.stop) (h : r.start ≤ r.stop) : e.clipRange r = r := by
  rw [Editor.clipRange, hs, he, between, if_pos h]

namespace PartialFold

/-- Folding ranges one after the other adds them under the next numbers and touches nothing else
that is drawn. -/
lemma foldEach_spec (ranges : List Range) {e : Editor} (hb : e.folds.Below e.nextId)
    (hc : ∀ r ∈ ranges, e.clipRange r = r) :
    (foldEach e ranges).1 = List.range' e.nextId ranges.length ∧
      (foldEach e ranges).2.text = e.text ∧ (foldEach e ranges).2.markers = e.markers ∧
      (foldEach e ranges).2.decorations = e.decorations ∧
      (foldEach e ranges).2.folds.entries =
        e.folds.entries ++ (List.range' e.nextId ranges.length).zip ranges := by
  induction ranges generalizing e with
  | nil => simp [foldEach]
  | cons r ranges ih =>
    have hr := hc r (by simp)
    have hb' : (e.fold r).2.folds.Below (e.fold r).2.nextId :=
      (hb.mono (Nat.le_succ _)).insert (Nat.lt_succ_self _)
    obtain ⟨h₁, h₂, h₃, h₄, h₅⟩ := ih (e := (e.fold r).2) hb' fun s hs => hc s (by simp [hs])
    have hentries : (e.fold r).2.folds.entries = e.folds.entries ++ [(e.nextId, r)] := by
      refine (Table.entries_insert_of_below hb).trans ?_
      rw [hr]
    refine ⟨?_, h₂, h₃, h₄, ?_⟩
    · exact congrArg (e.nextId :: ·) h₁
    · rw [show (foldEach e (r :: ranges)).2 = (foldEach (e.fold r).2 ranges).2 from rfl, h₅, hentries,
        List.append_assoc]
      rfl

/-- Folds that need no clipping are put behind those that are there, one after the other. -/
lemma values_foldEach {ranges : List Range} {e : Editor} (hb : e.folds.Below e.nextId)
    (hc : ∀ r ∈ ranges, e.clipRange r = r) :
    (foldEach e ranges).2.folds.values = e.folds.values ++ ranges := by
  obtain ⟨-, -, -, -, h⟩ := foldEach_spec ranges hb hc
  rw [Table.values, h, List.map_append, List.map_snd_zip (by simp), Table.values]

/-- When the range is wide enough, a partial fold is made. -/
lemma create_eq {e : Editor} {marker : MarkerId} {r : Range} {width : Nat}
    (htabs : e.settings.atomicSoftTabs = false) (hm : e.markerRange? marker = some r)
    (hr : e.text.offset r.start ≤ e.text.offset r.stop)
    (hwl : width ≤ (e.text.slice r).visualLength) :
    create e marker width =
      .ok (⟨marker, (foldEach e (pieces e.text r width)).1⟩,
        (foldEach e (pieces e.text r width)).2) := by
  have hread : e.read r = .ok (e.text.slice r) := by
    rw [Editor.read, slice?, if_pos hr]
  rw [create, if_neg (by simp [htabs]), hm]
  simp only [hread, bind, Except.bind, if_neg (Nat.not_lt.2 hwl)]
  rfl

/-- **Exact width.** A partial fold of a marker whose range no fold overlaps leaves exactly `width`
columns of the range, all on one screen row. The range starts where it started, and the screen
before it and after it is as it was. -/
theorem create_exact_width {e : Editor} (he : e.Reachable)
    (htabs : e.settings.atomicSoftTabs = false) (hfolds : AddressableEnds e.text e.folds.values)
    {marker : MarkerId} {m : Marker} (hm : e.markers.get? marker = some m)
    (hstart : e.text.Addressable m.range.start) (hstop : e.text.Addressable m.range.stop)
    (hclear : ∀ f ∈ e.folds.values, f.isPoint = false → m.range.overlaps f = false)
    {width : Nat} (hw : 1 ≤ width) (hwl : width ≤ (e.text.slice m.range).visualLength) :
    ∃ p e', create e marker width = .ok (p, e') ∧
      (e'.screenPoint m.range.stop).row = (e'.screenPoint m.range.start).row ∧
      (e'.screenPoint m.range.stop).column = (e'.screenPoint m.range.start).column + width ∧
      e'.screenPoint m.range.start = e.screenPoint m.range.start ∧
      linesBefore e'.screenLines (e'.screenPoint m.range.start) =
        linesBefore e.screenLines (e.screenPoint m.range.start) ∧
      linesAfter e'.screenLines (e'.screenPoint m.range.stop) =
        linesAfter e.screenLines (e.screenPoint m.range.stop) := by
  set r := m.range with hr
  have hlt := start_le_stop_of_width hstart hstop (Nat.lt_of_lt_of_le hw hwl)
  have hord : ∀ f ∈ e.folds.values, f.start ≤ f.stop := by
    intro f hf
    obtain ⟨k, hk⟩ := Table.mem_values_iff.1 hf
    exact he.kept.foldOrder k f hk
  have hothers : ClearOf e.text r e.folds.values := by
    refine ⟨hord, hfolds, fun f hf hff => ?_⟩
    have hno := hclear f hf ((isPoint_eq_false (hord f hf)).2 hff)
    rw [overlaps, decide_eq_false_iff_not, not_and_or, Point.not_lt, Point.not_lt] at hno
    exact hno
  have hpieces := laid_pieces hstart hstop hw hwl
  have hcreate := create_eq htabs (show e.markerRange? marker = some r by simp [Editor.markerRange?, hm, hr])
    ((offset_le_offset_iff hstart hstop).2 (le_of_lt hlt)) hwl
  have hclip : ∀ f ∈ pieces e.text r width, e.clipRange f = f := fun f hf =>
    Editor.clipRange_eq (hpieces f hf).1.1 (hpieces f hf).1.2 (le_of_lt (hpieces f hf).2.2.1)
  obtain ⟨-, htext, -⟩ := foldEach_spec _ he.kept.folds hclip
  have hvalues := values_foldEach he.kept.folds hclip
  refine ⟨_, _, hcreate, ?_⟩
  set e' := (foldEach e (pieces e.text r width)).2 with he'
  -- the same decomposition of the screen before and after, apart from what is shown of the range
  obtain ⟨hlines₀, hs₀, ht₀, hseam₀, hseam₀'⟩ :=
    screen_of_inner [] hstart hstop (le_of_lt hlt) hothers (by simp [FoldsWithin])
      (List.Perm.of_eq (List.append_nil e.folds.values).symm)
  obtain ⟨hlines₁, hs₁, ht₁, hseam₁, hseam₁'⟩ :=
    screen_of_inner _ hstart hstop (le_of_lt hlt) hothers (.of_lt hpieces) (.refl _)
  have hwidth := screenPoint_pieces hstart hstop hothers hw hwl (.refl _)
  have hpoint : ∀ p, e'.screenPoint p = screenPoint e.text (e.folds.values ++ pieces e.text r width) p := by
    intro p
    rw [Editor.screenPoint, htext, hvalues]
  have hscreen : e'.screenLines = screenLines e.text (e.folds.values ++ pieces e.text r width) := by
    rw [Editor.screenLines, htext, hvalues]
  rw [hpoint, hpoint, hscreen]
  refine ⟨?_, ?_, ?_, ?_, ?_⟩
  · rw [hwidth]
  · rw [hwidth]
  · rw [hs₁, Editor.screenPoint, hs₀]
  · rw [hlines₁, hs₁, linesBefore_lines hseam₁, Editor.screenLines, Editor.screenPoint, hlines₀, hs₀,
      linesBefore_lines hseam₀]
  · rw [hlines₁, ht₁, ← List.append_assoc, linesAfter_lines hseam₁', Editor.screenLines,
      Editor.screenPoint, hlines₀, ht₀, ← List.append_assoc, linesAfter_lines hseam₀']

/-- A range with both kinds of line endings between two folds that touch it, folded to three
columns. -/
theorem create_exact_width_crlf :
    let e : Editor := Editor.runAll
      { text := "xa\r\nb\n\rcdy".toList, settings := { atomicSoftTabs := false } }
      [.fold ⟨⟨0, 0⟩, ⟨0, 1⟩⟩, .createMarker ⟨⟨0, 1⟩, ⟨2, 3⟩⟩, .fold ⟨⟨2, 3⟩, ⟨2, 4⟩⟩]
    ∃ p e', create e 2 3 = .ok (p, e') ∧
      (e'.screenPoint ⟨2, 3⟩).row = (e'.screenPoint ⟨0, 1⟩).row ∧
      (e'.screenPoint ⟨2, 3⟩).column = (e'.screenPoint ⟨0, 1⟩).column + 3 ∧
      e'.screenPoint ⟨0, 1⟩ = e.screenPoint ⟨0, 1⟩ ∧
      linesBefore e'.screenLines (e'.screenPoint ⟨0, 1⟩) =
        linesBefore e.screenLines (e.screenPoint ⟨0, 1⟩) ∧
      linesAfter e'.screenLines (e'.screenPoint ⟨2, 3⟩) =
        linesAfter e.screenLines (e.screenPoint ⟨2, 3⟩) := by
  intro e
  exact create_exact_width (m := ⟨⟨⟨0, 1⟩, ⟨2, 3⟩⟩, true⟩) ⟨_, _, _, rfl⟩ rfl
    (by unfold AddressableEnds; decide) (by decide) (by decide) (by decide) (by decide) (by decide)
    (by decide)

end PartialFold

end TemplateFolding
