import TemplateFolding.Editor.Overlay
import TemplateFolding.Proofs.MovedText

/-!
# Text with some of its ranges covered

A cover is a marked range and a text to be shown in place of it. A range that is folded down to the
width of its cover, with the cover painted over what the folds leave, is shown as the cover.

Main statement: when the folds of an editor are the pieces of ranges that stand apart, and its
decorations draw a cover on each of them, the painted lines are the lines of the text with these
ranges replaced.
-/

namespace TemplateFolding

open Text Point Range

/-- A marked range and the text that is shown in place of it. -/
structure Cover where
  marker : MarkerId
  range : Range
  text : Text

/-- The text between two positions with the covered ranges in it replaced. -/
def covered (t : Text) (a b : Point) : List Cover → Text
  | [] => t.slice ⟨a, b⟩
  | c :: rest => t.slice ⟨a, c.range.start⟩ ++ (c.text ++ covered t c.range.stop b rest)

/-- A cover that goes on one line and takes no more columns than its range has steps. -/
structure Cover.Fits (t : Text) (c : Cover) : Prop where
  start : t.Addressable c.range.start
  stop : t.Addressable c.range.stop
  pos : 0 < c.text.length
  width : c.text.length ≤ (t.slice c.range).visualLength
  lf : '\n' ∉ c.text
  cr : '\r' ∉ c.text

/-- The folds that make room for a cover. -/
def Cover.folds (t : Text) (c : Cover) : List Range :=
  PartialFold.pieces t c.range c.text.length

/-- What its folds leave of a covered range, before the cover is painted. -/
def Cover.unpainted (t : Text) (c : Cover) : Cover :=
  { c with text := shownInside t c.range (c.folds t) }

section Covered

variable {t : Text} {a b : Point} {c : Cover} {l l' cs : List Cover}

/-- What is covered on both sides of a cover, with the cover in between. -/
lemma covered_append : covered t a b (l ++ c :: l') =
    covered t a c.range.start l ++ (c.text ++ covered t c.range.stop b l') := by
  induction l generalizing a with
  | nil => rfl
  | cons d l ih => rw [List.cons_append, covered, covered, ih, List.append_assoc, List.append_assoc]

lemma Cover.Fits.lt (h : c.Fits t) : c.range.start < c.range.stop :=
  PartialFold.start_le_stop_of_width h.start h.stop (Nat.lt_of_lt_of_le h.pos h.width)

/-- The folds of a cover are not empty and lie inside its range. -/
lemma Cover.Fits.folds (h : c.Fits t) :
    ∀ f ∈ c.folds t, (t.Addressable f.start ∧ t.Addressable f.stop) ∧
      c.range.start ≤ f.start ∧ f.start < f.stop ∧ f.stop ≤ c.range.stop :=
  PartialFold.laid_pieces h.start h.stop h.pos h.width

/-- What the folds leave is as wide as the cover. -/
lemma Cover.Fits.unpainted (h : c.Fits t) :
    '\n' ∉ (c.unpainted t).text ∧ (c.unpainted t).text.length = c.text.length :=
  PartialFold.shownBetween_pieces h.start h.stop h.pos h.width

/-- The cover over another range. -/
def Cover.moveTo (c : Cover) (r : Range) : Cover := { c with range := r }

/-- An edit that does not hit a covered range moves it together with its folds. -/
lemma Cover.Fits.moveTo {edit : Edit} {inserted : Text} (h : c.Fits t)
    (hr : edit.Replaces t inserted) (ht : t.NoLoneReturn) (hi : inserted.NoLoneReturn)
    (hmiss : edit.hitsInside c.range = false) :
    (c.moveTo (edit.mapRange c.range)).Fits (edit.apply t inserted) ∧
      (c.moveTo (edit.mapRange c.range)).folds (edit.apply t inserted) =
        (c.folds t).map edit.mapRange ∧
      ∀ f ∈ c.folds t, edit.hitsInside f = false := by
  obtain ⟨hsame, hinside⟩ := hr.sameText ht hi h.start h.stop (le_of_lt h.lt) hmiss
  have hwidth := h.width
  rw [hsame.same] at hwidth
  refine ⟨⟨hsame.start', hsame.stop', h.pos, hwidth, h.lf, h.cr⟩, ?_, ?_⟩
  · -- a fold inside the range is mapped to where its text has gone
    have hpieces := PartialFold.pieces_moved hsame h.pos h.width
    refine hpieces.trans (List.map_congr_left fun f hf => ?_)
    exact (hinside f (h.folds f hf)).2.symm
  · intro f hf
    exact (hinside f (h.folds f hf)).1

/-! ## The screen without overlays -/

/-- Covers in order between two positions. -/
def Arranged (t : Text) (a b : Point) (cs : List Cover) : Prop :=
  (∀ c ∈ cs, c.Fits t) ∧ Laid a b (cs.map (·.range))

lemma Arranged.tail (h : Arranged t a b (c :: cs)) : Arranged t c.range.stop b cs :=
  ⟨fun d hd => h.1 d (List.mem_cons_of_mem _ hd), h.2.2.2⟩

lemma Arranged.le (h : Arranged t a b cs) : a ≤ b := h.2.le

/-- The covers of a list, cut at one of them. -/
lemma Arranged.split (h : Arranged t a b (l ++ c :: l')) :
    Arranged t a c.range.start l ∧ c.Fits t ∧ Arranged t c.range.stop b l' := by
  induction l generalizing a with
  | nil => exact ⟨⟨by simp, h.2.1⟩, h.1 c (by simp), h.tail⟩
  | cons d l ih =>
    obtain ⟨hl, hc, hl'⟩ := ih h.tail
    refine ⟨⟨?_, h.2.1, h.2.2.1, hl.2⟩, hc, hl'⟩
    intro e he
    rcases List.mem_cons.1 he with rfl | he
    · exact h.1 e (by simp)
    · exact hl.1 e he

/-- The folds of covers in order lie between the same positions. -/
lemma Arranged.folds (h : Arranged t a b cs) :
    ∀ f ∈ cs.flatMap (·.folds t), (t.Addressable f.start ∧ t.Addressable f.stop) ∧
      a ≤ f.start ∧ f.start < f.stop ∧ f.stop ≤ b := by
  intro f hf
  obtain ⟨c, hc, hf⟩ := List.mem_flatMap.1 hf
  obtain ⟨hends, h₁, h₂, h₃⟩ := (h.1 c hc).folds f hf
  obtain ⟨hac, -, hcb⟩ := h.2.mem (List.mem_map_of_mem (f := (·.range)) hc)
  exact ⟨hends, le_trans hac h₁, h₂, le_trans h₃ hcb⟩

/-- The folds of arranged covers are within the positions that the covers lie between. -/
lemma Arranged.foldsWithin (h : Arranged t a b cs) :
    FoldsWithin t a b (cs.flatMap (·.folds t)) :=
  .of_lt h.folds

/-- Covers in order are shown as what their folds leave of them, and nothing else changes. -/
lemma Arranged.shownBetween (h : Arranged t a b cs) (ha : t.Addressable a) (hb : t.Addressable b) :
    shownBetween t a b (effectiveFolds (cs.flatMap (·.folds t))) =
      covered t a b (cs.map (·.unpainted t)) := by
  induction cs generalizing a with
  | nil => rfl
  | cons c cs ih =>
    have hc : c.Fits t := h.1 c (by simp)
    have hfolds : FoldsWithin t c.range.start c.range.stop (c.folds t) := .of_lt hc.folds
    have hnone : FoldsWithin t a c.range.start [] := by simp [FoldsWithin]
    have hac := h.2.1
    -- the text before the range, the range and the text after it
    rw [List.flatMap_cons, ← List.nil_append (c.folds t ++ _), hnone.shownBetween_append
      (hfolds.append h.tail.foldsWithin (le_of_lt hc.lt) h.tail.le) ha hc.start hb hac
      (le_trans (le_of_lt hc.lt) h.tail.le), hfolds.shownBetween_append h.tail.foldsWithin hc.start
      hc.stop hb (le_of_lt hc.lt) h.tail.le, ih h.tail hc.stop]
    rfl

/-- A position between covers is drawn after what is shown before it. -/
lemma screenPoint_of_split {folds : List Range} {p : Point} (hp : t.Addressable p)
    (hl : Arranged t .origin p l) (hl' : Arranged t p b l')
    (hperm : folds.Perm ((l ++ l').flatMap (·.folds t))) :
    screenPoint t folds p = pointAfter .origin (covered t .origin p (l.map (·.unpainted t))) := by
  rw [List.flatMap_append] at hperm
  rw [hl.foldsWithin.screenPoint hl'.foldsWithin hp hl'.le hperm,
    hl.shownBetween (addressable_origin t) hp]

/-- A covered range is drawn as wide as its cover. -/
lemma screenRange_of_split {folds : List Range} (h : Arranged t .origin b (l ++ c :: l'))
    (hperm : folds.Perm ((l ++ c :: l').flatMap (·.folds t))) :
    screenPoint t folds c.range.start =
        pointAfter .origin (covered t .origin c.range.start (l.map (·.unpainted t))) ∧
      screenPoint t folds c.range.stop =
        ⟨(screenPoint t folds c.range.start).row,
          (screenPoint t folds c.range.start).column + c.text.length⟩ := by
  obtain ⟨hl, hc, hl'⟩ := h.split
  obtain ⟨hlf, hlen⟩ := hc.unpainted
  have hrest : Arranged t c.range.start b (c :: l') :=
    ⟨fun d hd => h.1 d (List.mem_append_right _ hd), le_refl _, hc.lt, hl'.2⟩
  have hfirst : Arranged t .origin c.range.stop (l ++ [c]) := by
    refine ⟨fun d hd => h.1 d ?_, ?_⟩
    · rw [List.mem_append, List.mem_singleton] at hd
      rw [List.mem_append, List.mem_cons]
      exact hd.imp_right Or.inl
    · rw [List.map_append]
      exact hl.2.append ⟨le_refl _, hc.lt, le_refl _⟩
  have hstart := screenPoint_of_split hc.start hl hrest hperm
  have happend : l ++ c :: l' = (l ++ [c]) ++ l' := by simp
  rw [happend] at hperm
  have hstop := screenPoint_of_split hc.stop hfirst hl' hperm
  refine ⟨hstart, ?_⟩
  have hends : covered t .origin c.range.stop ((l ++ [c]).map (·.unpainted t)) =
      covered t .origin c.range.start (l.map (·.unpainted t)) ++ (c.unpainted t).text := by
    rw [List.map_append, List.map_singleton, covered_append, covered]
    show _ ++ ((c.unpainted t).text ++ t.slice ⟨c.range.stop, c.range.stop⟩) = _
    rw [slice_self, List.append_nil]
    rfl
  rw [hstop, hstart, hends, pointAfter_append, pointAfter_of_notMem hlf, hlen]

end Covered

/-! ## Painting -/

/-- Characters that can be painted over one by one: there are some, they are on one line, and no
line ending takes up the last of them. -/
structure Solid (x : Text) : Prop where
  ne_nil : x ≠ []
  lf : '\n' ∉ x
  cr : x.getLast? ≠ some '\r'

section Painting

variable {u v x y : Text}

/-- A solid text can follow anything: it does not start with a line feed. -/
lemma Solid.cleanSeam_left (h : Solid x) (u v : Text) : CleanSeam u (x ++ v) := by
  intro hbad
  obtain ⟨c, x, rfl⟩ := List.exists_cons_of_ne_nil h.ne_nil
  have hc : c = '\n' := by simpa using hbad.2
  exact h.lf (by simp [hc])

/-- Anything can follow a solid text: it does not end in a return. -/
lemma Solid.cleanSeam_right (h : Solid x) (v : Text) : CleanSeam x v :=
  fun hbad => h.cr hbad.1

/-- Writing over a part of a line replaces it by what is as long. -/
lemma overwrite_append (hy : y ≠ []) (hlen : y.length = x.length) :
    overwrite (u ++ (x ++ v)) u.length y = u ++ (y ++ v) := by
  have hshort : u.length - (u ++ (x ++ v)).length = 0 := by
    rw [List.length_append]
    omega
  have hdrop : (u ++ (x ++ v)).drop (u.length + y.length) = v := by
    rw [List.drop_length_add_append, hlen, List.drop_left]
  rw [overwrite, if_neg (by simpa using hy), hshort, hdrop, List.take_left]
  simp

/-- A change of the line on which two blocks of lines meet. -/
lemma modify_joinLines {xs ys : List Text} {change : Text → Text} (hx : xs ≠ [])
    (h : ∀ w : Text, w.length = (endOfLines xs).column → change (w ++ x) = w ++ y) :
    (joinLines xs (x :: ys)).modify (endOfLines xs).row change = joinLines xs (y :: ys) := by
  fun_induction endOfLines xs with
  | case1 => exact absurd rfl hx
  | case2 w =>
    rw [joinLines_cons, joinLines_cons, List.modify_zero_cons, h w rfl]
  | case3 w w' ws ih =>
    rw [joinLines, joinLines, List.modify_succ_cons, ih (by simp) h]

/-- Painting over part of a line replaces that part. -/
lemma paint_lines {view : OverlayView} (hx : Solid x) (hy : Solid y) (hlen : y.length = x.length)
    (htext : view.overlay.text = y) (hscreen : view.screen = pointAfter .origin u) :
    Editor.paint (Text.lines (u ++ (x ++ v))) view = Text.lines (u ++ (y ++ v)) := by
  obtain ⟨line, rest, hv⟩ := List.exists_cons_of_ne_nil (lines_ne_nil v)
  rw [Editor.paint, hscreen, htext, lines_append (hx.cleanSeam_left u v),
    lines_append (hy.cleanSeam_left u v), lines_append (hx.cleanSeam_right v),
    lines_append (hy.cleanSeam_right v), lines_of_notMem hx.lf, lines_of_notMem hy.lf, hv,
    joinLines_cons, joinLines_cons, ← endOfLines_lines]
  apply modify_joinLines (lines_ne_nil u)
  intro w hw
  rw [← hw]
  exact overwrite_append hy.ne_nil hlen

end Painting

/-! ## Painting one cover after the other -/

/-- A cover as it looks when the covers of some markers have been painted. -/
def Cover.drawn (t : Text) (painted : List MarkerId) (c : Cover) : Cover :=
  if c.marker ∈ painted then c else c.unpainted t

section Drawn

variable {t : Text} {c : Cover} {cs l : List Cover} {painted : List MarkerId} {b : Point}

@[simp] lemma Cover.range_drawn : (c.drawn t painted).range = c.range := by
  rw [drawn]
  split_ifs <;> rfl

/-- Painting at one marker does not change how the covers at others are drawn. -/
lemma Cover.drawn_cons_of_ne {marker : MarkerId} (h : c.marker ≠ marker) :
    c.drawn t (marker :: painted) = c.drawn t painted := by
  simp [drawn, h]

lemma Cover.Fits.solid (h : c.Fits t) : Solid c.text where
  ne_nil := List.length_pos_iff.1 h.pos
  lf := h.lf
  cr := fun hlast => h.cr (List.mem_of_getLast? hlast)

/-- What stands under a cover before it is painted has no line endings either. -/
lemma Cover.Fits.solid_unpainted (h : c.Fits t) (ht : t.NoLoneReturn) :
    Solid (c.unpainted t).text := by
  obtain ⟨hlf, hlen⟩ := h.unpainted
  refine ⟨?_, hlf, ?_⟩
  · rw [← List.length_pos_iff, hlen]
    exact h.pos
  · -- the last character is the one before the range's stop, which is a cut
    intro hlast
    have hfolds : FoldsWithin t c.range.start c.range.stop (c.folds t) := .of_lt h.folds
    exact (ht.take h.stop.isCut).getLast?_ne 
      (getLast?_shownBetween h.start h.stop hfolds.addressableEnds (hfolds.laid (le_of_lt h.lt)) hlast)

/-- Painted or not, a cover is drawn as one piece of the same length. -/
lemma Cover.Fits.drawn (h : c.Fits t) (ht : t.NoLoneReturn) (painted : List MarkerId) :
    Solid (c.drawn t painted).text ∧ (c.drawn t painted).text.length = c.text.length := by
  rw [Cover.drawn]
  split_ifs
  · exact ⟨h.solid, rfl⟩
  · exact ⟨h.solid_unpainted ht, h.unpainted.2⟩

/-- Painting moves nothing: covers are as wide as what they are painted over. -/
lemma pointAfter_covered (ht : t.NoLoneReturn) (painted : List MarkerId) (h : ∀ c ∈ l, c.Fits t)
    (p a b : Point) :
    pointAfter p (covered t a b (l.map (·.drawn t painted))) =
      pointAfter p (covered t a b (l.map (·.unpainted t))) := by
  induction l generalizing p a with
  | nil => rfl
  | cons c l ih =>
    have hc := h c (by simp)
    obtain ⟨hsolid, hlen⟩ := hc.drawn ht painted
    obtain ⟨hlf, hlen'⟩ := hc.unpainted
    rw [List.map_cons, List.map_cons, covered, covered, pointAfter_append, pointAfter_append,
      pointAfter_append, pointAfter_append, Cover.range_drawn, pointAfter_of_notMem hsolid.lf,
      pointAfter_of_notMem hlf, hlen, hlen', ih fun d hd => h d (List.mem_cons_of_mem _ hd)]
    rfl

/-- One overlay turns what the folds leave of its range into its cover. -/
lemma paint_covered {folds : List Range} {view : OverlayView} (ht : t.NoLoneReturn)
    (h : Arranged t .origin b cs) (hmarkers : (cs.map (·.marker)).Nodup)
    (hperm : folds.Perm (cs.flatMap (·.folds t))) (hc : c ∈ cs) (htext : view.overlay.text = c.text)
    (hscreen : view.screen = screenPoint t folds c.range.start) :
    Editor.paint (covered t .origin b (cs.map (·.drawn t painted))).lines view =
      (covered t .origin b (cs.map (·.drawn t (c.marker :: painted)))).lines := by
  obtain ⟨l, l', rfl⟩ := List.append_of_mem hc
  obtain ⟨hl, hfits, hl'⟩ := h.split
  obtain ⟨hsolid, hlen⟩ := hfits.drawn ht painted
  have hpoint := (screenRange_of_split h hperm).1
  rw [← pointAfter_covered ht painted hl.1] at hpoint
  -- the other covers stay as they are
  have hother : ∀ d, d ∈ l ∨ d ∈ l' → d.marker ≠ c.marker := by
    intro d hd heq
    rw [List.map_append, List.map_cons, List.perm_middle.nodup_iff, List.nodup_cons,
      ← List.map_append] at hmarkers
    apply hmarkers.1
    rw [← heq]
    exact List.mem_map_of_mem (List.mem_append.2 hd)
  have hleft : l.map (·.drawn t (c.marker :: painted)) = l.map (·.drawn t painted) :=
    List.map_congr_left fun d hd => Cover.drawn_cons_of_ne (hother d (Or.inl hd))
  have hright : l'.map (·.drawn t (c.marker :: painted)) = l'.map (·.drawn t painted) :=
    List.map_congr_left fun d hd => Cover.drawn_cons_of_ne (hother d (Or.inr hd))
  have hself : c.drawn t (c.marker :: painted) = c := by
    rw [Cover.drawn, if_pos (List.mem_cons_self ..)]
  rw [List.map_append, List.map_cons, List.map_append, List.map_cons, hleft, hright, hself,
    covered_append, covered_append, Cover.range_drawn]
  exact paint_lines hsolid hfits.solid hlen.symm htext (hscreen.trans hpoint)

/-- Overlays on covered ranges, painted in any order. -/
lemma foldl_paint_covered {folds : List Range} {views : List OverlayView} (ht : t.NoLoneReturn)
    (h : Arranged t .origin b cs) (hmarkers : (cs.map (·.marker)).Nodup)
    (hperm : folds.Perm (cs.flatMap (·.folds t)))
    (hviews : ∀ view ∈ views, ∃ c ∈ cs, view.marker = c.marker ∧ view.overlay.text = c.text ∧
      view.screen = screenPoint t folds c.range.start) :
    views.foldl Editor.paint (covered t .origin b (cs.map (·.drawn t painted))).lines =
      (covered t .origin b
        (cs.map (·.drawn t ((views.map (·.marker)).reverse ++ painted)))).lines := by
  induction views generalizing painted with
  | nil => rfl
  | cons view views ih =>
    obtain ⟨c, hc, hmarker, htext, hscreen⟩ := hviews view (by simp)
    rw [List.foldl_cons, paint_covered ht h hmarkers hperm hc htext hscreen, ← hmarker,
      ih fun w hw => hviews w (List.mem_cons_of_mem _ hw)]
    simp

end Drawn

/-- What the folds and decorations of an editor must be for the covers to be what is seen. -/
structure Editor.Draws (e : Editor) (cs : List Cover) : Prop where
  noLoneReturn : e.text.NoLoneReturn
  arranged : Arranged e.text .origin e.text.fullRange.stop cs
  markers : (cs.map (·.marker)).Nodup
  ranges : ∀ c ∈ cs, e.markerRange? c.marker = some c.range
  folds : e.folds.values.Perm (cs.flatMap (·.folds e.text))
  decorations : ∀ d ∈ e.decorations.values, ∃ c ∈ cs, d.marker = c.marker ∧ d.overlay.text = c.text
  painted : ∀ c ∈ cs, ∃ d ∈ e.decorations.values, d.marker = c.marker

/-- The painted lines are those of the text with the covered ranges replaced. -/
theorem Editor.Draws.paintedLines {e : Editor} {cs : List Cover} (h : e.Draws cs) :
    e.paintedLines = (covered e.text .origin e.text.fullRange.stop cs).lines := by
  have hscreen : e.screenLines =
      (covered e.text .origin e.text.fullRange.stop (cs.map (·.drawn e.text []))).lines := by
    have hnone : cs.map (·.drawn e.text []) = cs.map (·.unpainted e.text) :=
      List.map_congr_left fun c _ => by simp [Cover.drawn]
    rw [hnone, ← h.arranged.shownBetween (addressable_origin _) (addressable_stop _),
      ← effectiveFolds_congr h.folds, ← foldedFrom_eq]
    rfl
  have hview : ∀ d ∈ e.decorations.values, ∃ c ∈ cs, ∃ view, e.overlayOf? d = some view ∧
      view.marker = c.marker ∧ view.overlay.text = c.text ∧
      view.screen = e.screenPoint c.range.start ∧ d.marker = c.marker := by
    intro d hd
    obtain ⟨c, hc, hmarker, htext⟩ := h.decorations d hd
    have hrange := h.ranges c hc
    rw [markerRange?, Option.map_eq_some_iff] at hrange
    obtain ⟨m, hm, hrange⟩ := hrange
    refine ⟨c, hc, ⟨d.marker, d.overlay, m.range, e.screenPoint m.range.start⟩, ?_, hmarker, htext,
      by rw [hrange], hmarker⟩
    rw [overlayOf?, hmarker, hm]
    rfl
  rw [Editor.paintedLines, hscreen, foldl_paint_covered h.noLoneReturn h.arranged h.markers h.folds]
  · -- every cover has been painted
    congr 2
    have hall : ∀ c ∈ cs, c.drawn e.text ((e.overlays.map (·.marker)).reverse ++ []) = c := by
      intro c hc
      obtain ⟨d, hd, hmarker⟩ := h.painted c hc
      obtain ⟨c', -, view, hsome, hview, -, -, hd'⟩ := hview d hd
      rw [Cover.drawn, if_pos]
      rw [List.append_nil, List.mem_reverse]
      have hmem : view ∈ e.overlays := List.mem_filterMap.2 ⟨d, hd, hsome⟩
      rw [← hmarker, hd', ← hview]
      exact List.mem_map_of_mem hmem
    rw [List.map_congr_left hall, List.map_id']
  · intro view hmem
    obtain ⟨d, hd, hsome⟩ := List.mem_filterMap.1 hmem
    obtain ⟨c, hc, view', hsome', hmarker, htext, hpoint, -⟩ := hview d hd
    rw [hsome, Option.some.injEq] at hsome'
    rw [hsome']
    exact ⟨c, hc, hmarker, htext, hpoint⟩

end TemplateFolding
