import Mathlib.Order.Interval.Finset.Nat
import TemplateFolding.Proofs.PaintOrder
import TemplateFolding.Proofs.ScreenGeometry
import TemplateFolding.Report.FoldedScreen

/-!
# The screen written without colours

There are two ways to show an editor with its overlays. One paints every overlay over the lines. The
other paints them too, but then cuts each line at the overlays on it and writes these once more, in
their styles. Written without colours both show the same, provided that no two overlays of a row
share a column: then the line still has the text of each overlay where the overlay stands, and what
is written in its place is what has been cut out.

The two ways differ in one respect, which cannot be seen here. An empty overlay that stands past the
end of a line makes the line longer in the second way only, and where the ends of the folds are
addressable every overlay starts on the line it is drawn on.

The cuts are always within the line, whatever the overlays are.
-/

namespace TemplateFolding

open Text Piece

/-! ## Pieces without colours -/

lemma Piece.writeAll_append (colours : Bool) (ps qs : List Piece) :
    writeAll colours (ps ++ qs) = writeAll colours ps ++ writeAll colours qs :=
  List.flatMap_append

/-- What has inner parameters is these between the keyword with `<` and `>`. -/
lemma eq_of_innerParams? {t params : Text} (h : innerParams? t = some params) :
    t = "template<".toList ++ params ++ ['>'] := by
  obtain ⟨rest, hrest, hinner⟩ := Option.bind_eq_some_iff.1 h
  split_ifs at hinner with hclose
  rw [expect?_eq_some_iff.1 hrest, ← Option.some.inj hinner, List.append_assoc,
    List.dropLast_append_getLast? _ hclose]

/-- Without colours a preview is written as it is, however it is cut into pieces. -/
lemma writeAll_previewPieces (t : Text) : writeAll false (previewPieces t) = t := by
  unfold previewPieces
  split
  · rename_i params h
    rw [eq_of_innerParams? h]
    simp [writeAll, write, styled]
  · simp [writeAll, write]

namespace RowOverlay

variable {line : Text} {o : RowOverlay} {overlays : List RowOverlay} {column : Nat}

lemma writeAll_pieces (o : RowOverlay) : writeAll false o.pieces = o.text := by
  unfold pieces
  rw [writeAll_append, writeAll_append, writeAll_previewPieces]
  cases o.underCursor <;> simp [writeAll, write]

/-- Among the overlays of a row are those that were there and the one that is placed. -/
lemma mem_place {p : RowOverlay} (h : p ∈ o.place overlays) : p = o ∨ p ∈ overlays := by
  induction overlays with
  | nil => exact Or.inl (List.mem_singleton.1 h)
  | cons q rest ih =>
    unfold place at h
    split at h
    · exact List.mem_cons.1 h
    · rcases List.mem_cons.1 h with rfl | h
      · exact Or.inr (List.mem_cons_self ..)
      · exact (ih h).imp_right (List.mem_cons_of_mem _)

/-- The overlay ends on the line. -/
def FitsIn (line : Text) (o : RowOverlay) : Prop :=
  o.column + o.text.length ≤ line.length

/-- The line has the text of the overlay where the overlay stands. -/
def ShownIn (row : Text) (o : RowOverlay) : Prop :=
  ∀ i < o.text.length, row[o.column + i]? = o.text[i]?

/-- From the column of an overlay on, a line shows the overlay and then what is behind it. -/
lemma ShownIn.drop_eq (h : o.ShownIn line) :
    line.drop o.column = o.text ++ line.drop (o.column + o.text.length) := by
  refine List.ext_getElem? fun i => ?_
  rw [List.getElem?_drop, List.getElem?_append]
  split_ifs with hi
  · exact h i hi
  · rw [List.getElem?_drop]
    congr 1
    omega

end RowOverlay

/-! ## Cutting a line at its overlays -/

/-- The part of a line between two columns, refused if they are out of order or the line is too
short. -/
def Text.cut? (line : Text) (start stop : Nat) : Option Text :=
  if start ≤ stop ∧ stop ≤ line.length then some ((line.drop start).take (stop - start)) else none

/-- A line that is written up to a column, from there on, if it can be cut where its overlays
stand. -/
def linePieces? (line : Text) (column : Nat) : List RowOverlay → Option (List Piece)
  | [] => do
    let rest ← line.cut? column line.length
    return [.text rest]
  | o :: rest =>
    if o.column < column then linePieces? line column rest
    else do
      let before ← line.cut? column o.column
      let after ← linePieces? line (o.column + o.text.length) rest
      return .text before :: o.pieces ++ after

/-- Rows of the screen, if all lines can be cut where their overlays stand. -/
def rowPieces? : List ScreenRow → Option (List Piece)
  | [] => some []
  | (line, overlays) :: rows => do
    let first ← linePieces? line 0 overlays
    let rest ← rowPieces? rows
    return first ++ .text ['\n'] :: rest

/-- The screen with all overlays in their styles, if all lines can be cut where their overlays
stand. -/
def Editor.foldedScreen? (e : Editor) (colours : Bool) : Option Text :=
  (rowPieces? e.screenRows).map fun pieces => dropEmptyLastLine (writeAll colours pieces)

section Cuts

variable {line : Text} {overlays : List RowOverlay} {column : Nat}

/-- A line can be cut at overlays that fit in it. -/
lemma linePieces?_eq_some (h : ∀ o ∈ overlays, o.FitsIn line) (hcolumn : column ≤ line.length) :
    linePieces? line column overlays = some (linePieces line column overlays) := by
  induction overlays generalizing column with
  | nil =>
    rw [linePieces?, cut?, if_pos ⟨hcolumn, Nat.le_refl _⟩, linePieces,
      List.take_of_length_le (by rw [List.length_drop])]
    rfl
  | cons o rest ih =>
    have ho : o.column + o.text.length ≤ line.length := h o (List.mem_cons_self ..)
    have hrest : ∀ o ∈ rest, o.FitsIn line := fun p hp => h p (List.mem_cons_of_mem _ hp)
    unfold linePieces? linePieces
    split_ifs with hskip
    · exact ih hrest hcolumn
    · rw [cut?, if_pos (by omega), ih hrest ho]
      rfl

/-- Rows can be cut if the overlays of each fit in its line. -/
lemma rowPieces?_eq_some {rows : List ScreenRow} (h : ∀ row ∈ rows, ∀ o ∈ row.2, o.FitsIn row.1) :
    rowPieces? rows =
      some (rows.flatMap fun (line, overlays) => linePieces line 0 overlays ++ [.text ['\n']]) := by
  induction rows with
  | nil => rfl
  | cons row rows ih =>
    obtain ⟨line, overlays⟩ := row
    have hfirst := linePieces?_eq_some (h (line, overlays) (List.mem_cons_self ..)) (Nat.zero_le _)
    rw [rowPieces?, hfirst, ih fun row hrow => h row (List.mem_cons_of_mem _ hrow),
      List.flatMap_cons, List.append_assoc, List.singleton_append]
    rfl

/-- Without colours the pieces of a line are the line. -/
lemma writeAll_linePieces (h : ∀ o ∈ overlays, o.ShownIn line) (column : Nat) :
    writeAll false (linePieces line column overlays) = line.drop column := by
  induction overlays generalizing column with
  | nil => simp [linePieces, writeAll, write]
  | cons o rest ih =>
    have hrest : ∀ o ∈ rest, o.ShownIn line := fun p hp => h p (List.mem_cons_of_mem _ hp)
    unfold linePieces
    split_ifs with hskip
    · exact ih hrest column
    · have hcut : line.drop o.column = (line.drop column).drop (o.column - column) := by
        rw [List.drop_drop]
        congr 1
        omega
      have hfrom : writeAll false (o.pieces ++ linePieces line (o.column + o.text.length) rest) =
          o.text ++ line.drop (o.column + o.text.length) := by
        rw [writeAll_append, o.writeAll_pieces, ih hrest]
      calc writeAll false (.text ((line.drop column).take (o.column - column)) ::
            o.pieces ++ linePieces line (o.column + o.text.length) rest)
          = (line.drop column).take (o.column - column) ++
              writeAll false (o.pieces ++ linePieces line (o.column + o.text.length) rest) := rfl
        _ = (line.drop column).take (o.column - column) ++ line.drop o.column := by
            rw [hfrom, (h o (List.mem_cons_self ..)).drop_eq]
        _ = line.drop column := by rw [hcut, List.take_append_drop]

end Cuts

/-! ## Drawing into a line -/

namespace Text

variable {line cover : Text} {column : Nat}

/-- An imprint makes a line as long as it has to be. -/
lemma length_imprint (line : Text) (column : Nat) (cover : Text) :
    (line.imprint column cover).length = max line.length (column + cover.length) := by
  simp only [imprint, List.length_append, List.length_take, List.length_replicate, List.length_drop]
  omega

/-- Only an empty text past the end of the line is drawn in two ways. -/
lemma imprint_eq_overwrite (h : column ≤ line.length) :
    line.imprint column cover = line.overwrite column cover := by
  unfold imprint overwrite
  split_ifs with hcover
  · rw [List.isEmpty_iff.1 hcover, Nat.sub_eq_zero_of_le h]
    simp
  · rfl

end Text

namespace RowOverlay

variable {line cover : Text} {column : Nat} {o : RowOverlay}

/-- What has just been written on a line is shown in it. -/
lemma shownIn_overwrite (line : Text) (o : RowOverlay) :
    o.ShownIn (line.overwrite o.column o.text) := by
  intro i hi
  rw [getElem?_overwrite (List.ne_nil_of_length_pos (by omega)), if_neg (by omega),
    if_pos (by omega), Nat.add_sub_cancel_left]

/-- What is drawn over other columns leaves an overlay as it is. -/
lemma ShownIn.overwrite (h : o.ShownIn line)
    (hapart : Disjoint (Finset.Ico o.column (o.column + o.text.length))
      (Finset.Ico column (column + cover.length))) : o.ShownIn (line.overwrite column cover) := by
  rcases eq_or_ne cover [] with rfl | hcover
  · exact h
  intro i hi
  have hmem : o.column + i ∈ Finset.Ico o.column (o.column + o.text.length) :=
    Finset.mem_Ico.2 ⟨by omega, by omega⟩
  have hother := Finset.disjoint_left.1 hapart hmem
  rw [Finset.mem_Ico, not_and] at hother
  rw [getElem?_overwrite hcover, h i hi]
  split_ifs with hfront hcovered
  · rw [List.getElem?_eq_getElem hi, Option.getD_some]
  · exact absurd hcovered (hother (by omega))
  · rfl

end RowOverlay

lemma Text.length_le_length_overwrite (line : Text) (column : Nat) (cover : Text) :
    line.length ≤ (line.overwrite column cover).length := by
  unfold overwrite
  split_ifs
  · exact Nat.le_refl _
  · simp only [List.length_append, List.length_take, List.length_replicate, List.length_drop]
    omega

/-! ## Drawing on the rows of the screen -/

/-- The columns of its row that an overlay takes. -/
def OverlayView.columns (v : OverlayView) : Finset Nat :=
  Finset.Ico v.screen.column (v.screen.column + v.overlay.text.length)

/-- An overlay starts on one of the lines or at its end. -/
def OverlayView.StartsOn (lines : List Text) (v : OverlayView) : Prop :=
  ∃ line, lines[v.screen.row]? = some line ∧ v.screen.column ≤ line.length

/-- The row that an overlay is drawn on, with the overlay. -/
def OverlayView.drawnOn (v : OverlayView) (row : ScreenRow) : ScreenRow :=
  (row.1.imprint v.screen.column v.overlay.text, RowOverlay.place
    ⟨v.screen.column, v.overlay.text, v.overlay.style.endsWith "under-cursor"⟩ row.2)

/-- An overlay is drawn on the row that it is on, and leaves the others as they are. -/
lemma getElem?_drawOverlay (rows : List ScreenRow) (v : OverlayView) (i : Nat) :
    (drawOverlay rows v)[i]? =
      rows[i]?.map fun row => if v.screen.row = i then v.drawnOn row else row := by
  unfold drawOverlay
  rw [List.getElem?_modify]
  rfl

/-- Rows on which views have been drawn: the lines are those that painting leads to, none has become
shorter, and each has the text of its overlays, which are views drawn on that row. -/
structure RowsDrawn (lines : List Text) (views : List OverlayView) (rows : List ScreenRow) :
    Prop where
  painted : rows.map (·.1) = views.foldl Editor.paint lines
  grown : ∀ (i : Nat) (line : Text), lines[i]? = some line →
    ∃ row, rows[i]? = some row ∧ line.length ≤ row.1.length
  shown : ∀ (i : Nat) (row : ScreenRow), rows[i]? = some row → ∀ o ∈ row.2, o.ShownIn row.1 ∧
    ∃ v ∈ views, v.screen.row = i ∧ v.screen.column = o.column ∧ v.overlay.text = o.text

namespace RowsDrawn

variable {lines : List Text} {views : List OverlayView} {rows : List ScreenRow} {v : OverlayView}

lemma start (lines : List Text) : RowsDrawn lines [] (lines.map fun line => (line, [])) where
  painted := by
    rw [List.map_map]
    exact List.map_id lines
  grown := by
    intro i line hline
    refine ⟨(line, []), ?_, Nat.le_refl _⟩
    rw [List.getElem?_map, hline, Option.map_some]
  shown := by
    intro i row hrow o ho
    rw [List.getElem?_map] at hrow
    obtain ⟨line, -, rfl⟩ := Option.map_eq_some_iff.1 hrow
    exact absurd ho (by simp)

/-- One more view is drawn. It takes columns that no view on its row has taken. -/
lemma drawOverlay (h : RowsDrawn lines views rows) (hstarts : v.StartsOn lines)
    (hapart : ∀ w ∈ views, w.screen.row = v.screen.row → Disjoint w.columns v.columns) :
    RowsDrawn lines (views ++ [v]) (drawOverlay rows v) := by
  obtain ⟨line, hline, hcolumn⟩ := hstarts
  obtain ⟨row, hrow, hlength⟩ := h.grown _ _ hline
  have himprint : (v.drawnOn row).1 = row.1.overwrite v.screen.column v.overlay.text :=
    imprint_eq_overwrite (Nat.le_trans hcolumn hlength)
  refine ⟨List.ext_getElem? fun i => ?_, fun i line hline => ?_, fun i row' hrow' o ho => ?_⟩
  · rw [List.foldl_append, List.foldl_cons, List.foldl_nil, ← h.painted, Editor.paint,
      List.getElem?_modify, List.getElem?_map, List.getElem?_map, getElem?_drawOverlay]
    by_cases hi : v.screen.row = i
    · subst hi
      simp [hrow, himprint]
    · simp [hi]
  · obtain ⟨row', hrow', hle⟩ := h.grown i line hline
    rw [getElem?_drawOverlay, hrow']
    refine ⟨_, rfl, ?_⟩
    split_ifs with hi
    · subst hi
      obtain rfl := Option.some.inj (hrow.symm.trans hrow')
      rw [himprint]
      exact Nat.le_trans hle (length_le_length_overwrite _ _ _)
    · exact hle
  · rw [getElem?_drawOverlay] at hrow'
    obtain ⟨old, hold, rfl⟩ := Option.map_eq_some_iff.1 hrow'
    split_ifs at ho ⊢ with hi
    · subst hi
      obtain rfl := Option.some.inj (hrow.symm.trans hold)
      rw [himprint]
      rcases RowOverlay.mem_place ho with rfl | ho
      · exact ⟨RowOverlay.shownIn_overwrite _ _, v, by simp, rfl, rfl, rfl⟩
      · obtain ⟨hshown, w, hw, hwrow, hwcolumn, hwtext⟩ := h.shown _ _ hrow o ho
        have hdisjoint := hapart w hw hwrow
        rw [OverlayView.columns, hwcolumn, hwtext] at hdisjoint
        exact ⟨hshown.overwrite hdisjoint, w, List.mem_append_left _ hw, hwrow, hwcolumn, hwtext⟩
    · obtain ⟨hshown, w, hw, hplace⟩ := h.shown i old hold o ho
      exact ⟨hshown, w, List.mem_append_left _ hw, hplace⟩

/-- All views are drawn. -/
lemma foldl (h : RowsDrawn lines views rows) {more : List OverlayView}
    (hstarts : ∀ v ∈ more, v.StartsOn lines)
    (hapart : (views ++ more).Pairwise fun v w =>
      v.screen.row = w.screen.row → Disjoint v.columns w.columns) :
    RowsDrawn lines (views ++ more) (more.foldl TemplateFolding.drawOverlay rows) := by
  induction more generalizing views rows with
  | nil => rwa [List.append_nil]
  | cons v more ih =>
    have hnext : RowsDrawn lines (views ++ [v]) (TemplateFolding.drawOverlay rows v) := by
      refine h.drawOverlay (hstarts v (List.mem_cons_self ..)) fun w hw => ?_
      exact (List.pairwise_append.1 hapart).2.2 w hw v (List.mem_cons_self ..)
    rw [List.append_cons] at hapart ⊢
    exact ih hnext (fun w hw => hstarts w (List.mem_cons_of_mem _ hw)) hapart

end RowsDrawn

namespace Editor

variable {e : Editor}

/-! ## Both ways to show an editor -/

/-- No two overlays of a row have a column in common. -/
def OverlaysApart (e : Editor) : Prop :=
  e.overlays.Pairwise fun v w => v.screen.row = w.screen.row → Disjoint v.columns w.columns

/-- Every position is drawn on the screen. -/
lemma Reachable.exists_line (he : e.Reachable) (hfolds : AddressableEnds e.text e.folds.values)
    (p : Point) : ∃ line, e.screenLines[(e.screenPoint p).row]? = some line ∧
      (e.screenPoint p).column ≤ line.length := by
  have hlaid := he.laid_folds hfolds
  have hends := hfolds.effectiveFolds
  have hshows : ∃ c?, ShowsAt e.screenLines (e.screenPoint p) c? := by
    by_cases hclear : ∀ f ∈ effectiveFolds e.folds.values,
        f.start ≤ e.text.clip p → ¬e.text.clip p < f.stop
    · exact ⟨_, showsAt_of_not_covered (addressable_clip _ p) hends hlaid hclear⟩
    · push Not at hclear
      obtain ⟨f, hf, hstart, hstop⟩ := hclear
      exact ⟨_, (showsAt_of_covered hends hlaid hf hstart hstop).1⟩
  obtain ⟨c?, hshows⟩ := hshows
  obtain ⟨line, hline⟩ := hshows.exists_line
  exact ⟨line, hline, (hshows.getElem? hline).1⟩

/-- The overlays of an editor start on a line of the screen. -/
lemma Reachable.startsOn (he : e.Reachable) (hfolds : AddressableEnds e.text e.folds.values)
    {v : OverlayView} (hv : v ∈ e.overlays) : v.StartsOn e.screenLines := by
  obtain ⟨d, -, hd⟩ := List.mem_filterMap.1 hv
  obtain ⟨m, -, rfl⟩ := Option.map_eq_some_iff.1 hd
  exact he.exists_line hfolds m.range.start

/-- What has been drawn on the rows of the screen fits in their lines. -/
lemma fitsIn_screenRows (e : Editor) {row : ScreenRow} (hrow : row ∈ e.screenRows) :
    ∀ o ∈ row.2, o.FitsIn row.1 := by
  have hall : ∀ (i : Nat) (row : ScreenRow), e.screenRows[i]? = some row →
      ∀ o ∈ row.2, o.FitsIn row.1 := by
    unfold screenRows
    refine List.foldlRecOn (motive := fun rows : List ScreenRow => ∀ (i : Nat) (row : ScreenRow),
      rows[i]? = some row → ∀ o ∈ row.2, o.FitsIn row.1) _ _ ?_ fun rows h v _ i row hrow o ho => ?_
    · exact fun i row hrow o ho => absurd ho (by
        rw [List.getElem?_map] at hrow
        obtain ⟨line, -, rfl⟩ := Option.map_eq_some_iff.1 hrow
        simp)
    · rw [getElem?_drawOverlay] at hrow
      obtain ⟨old, hold, rfl⟩ := Option.map_eq_some_iff.1 hrow
      split_ifs at ho ⊢
      · rw [RowOverlay.FitsIn, OverlayView.drawnOn, length_imprint]
        rcases RowOverlay.mem_place ho with rfl | ho
        · exact Nat.le_max_right _ _
        · exact Nat.le_trans (h i old hold o ho) (Nat.le_max_left _ _)
      · exact h i old hold o ho
  obtain ⟨i, hi⟩ := List.mem_iff_getElem?.1 hrow
  exact hall i row hi

/-- No line is cut outside of it. -/
lemma foldedScreen?_eq_some (e : Editor) (colours : Bool) :
    e.foldedScreen? colours = some (e.foldedScreen colours) := by
  rw [foldedScreen?, rowPieces?_eq_some fun _ hrow => e.fitsIn_screenRows hrow]
  rfl

/-- Rows that show their overlays are written as their lines. -/
lemma writeAll_rows {rows : List ScreenRow} (h : ∀ row ∈ rows, ∀ o ∈ row.2, o.ShownIn row.1) :
    (writeAll false <| rows.flatMap fun (line, overlays) =>
      linePieces line 0 overlays ++ [.text ['\n']]) = (rows.map (·.1)).flatMap (· ++ ['\n']) := by
  rw [writeAll, List.flatMap_assoc, List.flatMap_map]
  refine List.flatMap_congr fun row hrow => ?_
  show writeAll false (linePieces row.1 0 row.2 ++ [.text ['\n']]) = row.1 ++ ['\n']
  rw [writeAll_append, writeAll_linePieces (h row hrow), List.drop_zero]
  rfl

/-- Written without colours, the screen is the painted lines, each with a line feed after it, less
the last line feed where an empty line is last. In writing it no line is cut outside of it. -/
theorem foldedScreen_eq_paintedLines (he : e.Reachable)
    (hfolds : AddressableEnds e.text e.folds.values) (hapart : e.OverlaysApart) :
    (∀ colours, e.foldedScreen? colours = some (e.foldedScreen colours)) ∧
      e.foldedScreen false =
        let written := e.paintedLines.flatMap (· ++ ['\n'])
        if written = ['\n'] ∨ ['\n', '\n'] <:+ written then written.dropLast else written := by
  refine ⟨e.foldedScreen?_eq_some, ?_⟩
  have hdrawn : RowsDrawn e.screenLines e.overlays e.screenRows :=
    (RowsDrawn.start e.screenLines).foldl (fun _ hv => he.startsOn hfolds hv) hapart
  have hshown : ∀ row ∈ e.screenRows, ∀ o ∈ row.2, o.ShownIn row.1 := by
    intro row hrow o ho
    obtain ⟨i, hi⟩ := List.mem_iff_getElem?.1 hrow
    exact (hdrawn.shown i row hi o ho).1
  unfold foldedScreen
  rw [writeAll_rows hshown, hdrawn.painted]
  simp only [dropEmptyLastLine, List.isSuffixOf_iff_suffix]
  rfl

/-- On one row an overlay, an empty one inside its columns, one right behind it and one that reaches
past the end of the line; below it an empty row. -/
theorem foldedScreen_eq_paintedLines_crowded :
    let e : Editor := runAll { text := "abcdefg\r\n".toList }
      [.fold ⟨⟨0, 0⟩, ⟨0, 2⟩⟩, .createMarker ⟨⟨0, 7⟩, ⟨0, 7⟩⟩, .createMarker ⟨⟨0, 2⟩, ⟨0, 4⟩⟩,
        .createMarker ⟨⟨0, 3⟩, ⟨0, 3⟩⟩, .createMarker ⟨⟨0, 4⟩, ⟨0, 6⟩⟩,
        .decorate 2 ⟨['X', 'Y'], ""⟩, .decorate 3 ⟨['x', 'y'], "under-cursor"⟩,
        .decorate 4 ⟨[], ""⟩, .decorate 5 ⟨['z'], ""⟩]
    e.foldedScreen? false = some "⋯xyzfgXY\n".toList ∧
      e.paintedLines = ["⋯xyzfgXY".toList, []] := by
  intro e
  have he : e.Reachable := ⟨_, _, _, rfl⟩
  have hfolds : AddressableEnds e.text e.folds.values := by unfold AddressableEnds; decide
  have hapart : e.OverlaysApart := by unfold OverlaysApart; decide
  obtain ⟨hcuts, hplain⟩ := foldedScreen_eq_paintedLines he hfolds hapart
  have hpainted : e.paintedLines = ["⋯xyzfgXY".toList, []] := by decide
  rw [hcuts, hplain, hpainted]
  exact ⟨by decide, rfl⟩

end Editor

end TemplateFolding
