import TemplateFolding.Proofs.EditorRuns
import TemplateFolding.Proofs.ScreenText

/-!
# Positions and the characters displayed there

The screen is described twice: `screenPoint` reckons with rows and columns, `screenLines` puts
slices of the text together. The two agree. A position that no fold covers is drawn in front of the
character that follows it in the buffer, or at the end of a displayed line if it ends its row, and
a position that a fold covers is drawn at the placeholder of that fold.

Both cases cut the screen in two. Where the text and the folds before a cut are drawn, a line goes
on with the first line of what is drawn behind it.
-/

namespace TemplateFolding

open Text Point Range

/-! ## The line at a cut -/

section Lines

variable {xs ys : List Text} {u v : Text}

/-- At a position of displayed lines stands the character, or the line ends there if none is
given. -/
def ShowsAt (lines : List Text) (q : Point) (c? : Option Char) : Prop :=
  ∃ x y, lines[q.row]? = some (x ++ y) ∧ x.length = q.column ∧ y.head? = c?

lemma ShowsAt.exists_line {q : Point} {c? : Option Char} (h : ShowsAt xs q c?) :
    ∃ shown, xs[q.row]? = some shown := by
  obtain ⟨x, y, hxy, -⟩ := h
  exact ⟨x ++ y, hxy⟩

/-- A character is shown where it stands on its line. -/
lemma ShowsAt.getElem? {q : Point} {c? : Option Char} {shown : Text} (h : ShowsAt xs q c?)
    (hline : xs[q.row]? = some shown) : q.column ≤ shown.length ∧ shown[q.column]? = c? := by
  obtain ⟨x, y, hxy, hx, rfl⟩ := h
  obtain rfl : shown = x ++ y := Option.some.inj (hline.symm.trans hxy)
  rw [← hx, List.length_append, List.getElem?_append_right (Nat.le_refl _), Nat.sub_self,
    List.head?_eq_getElem?]
  exact ⟨Nat.le_add_right _ _, rfl⟩

/-- The character that the first line of a text starts with. -/
def Text.lineHead? (t : Text) : Option Char :=
  t.lines.head?.bind List.head?

/-- Where two runs of lines are put together, the first line of the second follows what the first
one ends with. -/
lemma exists_line_joinLines (hx : xs ≠ []) {y : Text} (hy : ys.head? = some y) :
    ∃ x, (joinLines xs ys)[(endOfLines xs).row]? = some (x ++ y) ∧
      x.length = (endOfLines xs).column := by
  fun_induction joinLines xs ys with
  | case1 => exact absurd rfl hx
  | case2 => simp at hy
  | case3 x y' ys =>
    rw [List.head?_cons, Option.some.injEq] at hy
    subst hy
    exact ⟨x, rfl, rfl⟩
  | case4 x x' xs ys ih =>
    obtain ⟨z, hline, hlength⟩ := ih (by simp) hy
    exact ⟨z, hline, hlength⟩

/-- Where a text is cut, its lines show what the second part starts with. -/
lemma showsAt_append (h : CleanSeam u v) :
    ShowsAt (Text.lines (u ++ v)) (pointAfter .origin u) v.lineHead? := by
  obtain ⟨y, ys, hlines⟩ := List.exists_cons_of_ne_nil (lines_ne_nil v)
  have hhead : v.lines.head? = some y := by rw [hlines, List.head?_cons]
  obtain ⟨x, hline, hlength⟩ := exists_line_joinLines (lines_ne_nil u) hhead
  rw [← lines_append h, endOfLines_lines] at hline
  rw [endOfLines_lines] at hlength
  refine ⟨x, y, hline, hlength, ?_⟩
  rw [lineHead?, hhead]
  rfl

/-- What has one line, and that empty, is empty. -/
lemma eq_nil_of_lines (h : u.lines = [[]]) : u = [] := by
  by_contra hne
  have hend : pointAfter .origin u = .origin := by
    rw [← endOfLines_lines, h]
    rfl
  have hlt := lt_pointAfter .origin hne
  rw [hend, lt_iff] at hlt
  omega

/-- What comes behind a part of the text does not change how its first line starts. -/
lemma lineHead?_append (hu : u ≠ []) (h : CleanSeam u v) :
    Text.lineHead? (u ++ v) = u.lineHead? := by
  obtain ⟨y, ys, hv⟩ := List.exists_cons_of_ne_nil (lines_ne_nil v)
  rw [lineHead?, lineHead?, lines_append h, hv]
  cases hlines : u.lines with
  | nil => exact absurd hlines (lines_ne_nil u)
  | cons x xs =>
    cases xs with
    | nil =>
      cases x with
      | nil => exact absurd (eq_nil_of_lines hlines) hu
      | cons c x => rfl
    | cons x' xs => rfl

/-- A character that is not part of a line ending stands at the head of its line. -/
lemma lineHead?_cons {c : Char} (hc : c ≠ '\n') (h : CleanSeam [c] u) :
    Text.lineHead? (c :: u) = some c := by
  obtain ⟨y, ys, hu⟩ := List.exists_cons_of_ne_nil (lines_ne_nil u)
  rw [lineHead?, lines_cons hc h, hu]
  rfl

/-- The first line of a text starts with the text's first character, unless it has none. -/
lemma lineHead?_eq (u : Text) :
    u.lineHead? = if 0 < u.firstLineLength then u.head? else none := by
  fun_cases firstLineLength u with
  | case1 => rfl
  | case2 u => rfl
  | case3 u => rfl
  | case4 c u hlf hcrlf =>
    have hseam : CleanSeam [c] u := by
      rintro ⟨hcr, hhead⟩
      obtain ⟨v, rfl⟩ := List.head?_eq_some_iff.1 hhead
      simp only [List.getLast?_singleton, Option.some.injEq] at hcr
      exact hcrlf v hcr rfl
    rw [lineHead?_cons hlf hseam, if_pos (Nat.succ_pos _), List.head?_cons]

end Lines

/-! ## Rows of the buffer -/

namespace Text

/-- Dropping what is in front of a row leaves the text from that row on. -/
lemma drop_rowStart (row : Nat) (t : Text) : t.drop (rowStart row t) = fromRow row t := by
  fun_induction fromRow row t with
  | case1 t => rw [rowStart, List.drop_zero]
  | case2 row => rfl
  | case3 row cs ih => rw [rowStart, if_pos rfl, List.drop_succ_cons, ih]
  | case4 row c cs hc ih => rw [rowStart, if_neg hc, List.drop_succ_cons, ih]

/-- Dropping part of the first line makes it shorter by as much. -/
lemma firstLineLength_drop {u : Text} {n : Nat} (h : n ≤ firstLineLength u) :
    firstLineLength (u.drop n) = firstLineLength u - n := by
  induction n generalizing u with
  | zero => rfl
  | succ n ih =>
    revert h
    fun_cases firstLineLength u with
    | case1 => intro h; omega
    | case2 u => intro h; omega
    | case3 u => intro h; omega
    | case4 c u =>
      intro h
      rw [List.drop_succ_cons, ih (by omega)]
      omega

lemma firstLineLength_le (u : Text) : firstLineLength u ≤ u.length := by
  fun_induction firstLineLength u <;> grind

lemma length_of_lt_lineLength {t : Text} {row column : Nat} (h : column < t.lineLength row) :
    column < (t.fromRow row).length :=
  Nat.lt_of_lt_of_le h (firstLineLength_le _)

end Text

/-! ## Cutting the folds at a position -/

section Cuts

variable {t : Text} {a b p s : Point} {l l₁ l₂ : List Range} {f : Range}

/-- A position that no fold covers lies between those before it and those after it. -/
lemma Range.Laid.cut (h : Laid a b l) (hap : a ≤ p) (hpb : p ≤ b)
    (hfree : ∀ f ∈ l, f.start ≤ p → ¬p < f.stop) :
    ∃ l₁ l₂, l = l₁ ++ l₂ ∧ Laid a p l₁ ∧ Laid p b l₂ ∧ ∀ f ∈ l₂, p < f.start := by
  induction l generalizing a with
  | nil => exact ⟨[], [], rfl, hap, hpb, by simp⟩
  | cons r l ih =>
    obtain ⟨hstart, hlt, hl⟩ := h
    by_cases hr : p < r.start
    · refine ⟨[], r :: l, rfl, hap, ⟨le_of_lt hr, hlt, hl⟩, ?_⟩
      intro f hf
      rcases List.mem_cons.1 hf with rfl | hf
      · exact hr
      · exact lt_of_lt_of_le hr (le_trans (le_of_lt hlt) (hl.mem hf).1)
    · have hstop := hfree r (by simp) (Point.not_lt.1 hr)
      obtain ⟨l₁, l₂, rfl, h₁, h₂⟩ := ih hl (Point.not_lt.1 hstop)
        fun f hf => hfree f (List.mem_cons_of_mem _ hf)
      exact ⟨r :: l₁, l₂, rfl, ⟨hstart, hlt, h₁⟩, h₂⟩

/-- Folds laid out one after the other can be cut in front of each of them. -/
lemma Range.Laid.split (h : Laid a b (l₁ ++ f :: l₂)) :
    Laid a f.start l₁ ∧ Laid f.start b (f :: l₂) := by
  induction l₁ generalizing a with
  | nil => exact ⟨h.1, le_refl _, h.2⟩
  | cons r l₁ ih =>
    obtain ⟨hbefore, hafter⟩ := ih h.2.2
    exact ⟨⟨h.1, h.2.1, hbefore⟩, hafter⟩

/-- The positions that a fold covers are drawn where it starts. -/
lemma screenFrom_covered (h : Laid a f.start l₁) (hstart : f.start ≤ p) (hstop : p < f.stop)
    (screen : Point) :
    screenFrom p a screen (l₁ ++ f :: l₂) = screenFrom f.start a screen (l₁ ++ f :: l₂) := by
  induction l₁ generalizing a screen with
  | nil =>
    rw [List.nil_append, screenFrom, screenFrom, if_pos (le_refl f.start)]
    by_cases hp : p ≤ f.start
    · rw [if_pos hp, le_antisymm hp hstart]
    · rw [if_neg hp, if_pos hstop]
  | cons g l₁ ih =>
    obtain ⟨-, hg, hl⟩ := h
    -- both positions lie behind `g`, so the walk goes past it
    have hpast : ∀ {q}, f.start ≤ q → ¬q ≤ g.start ∧ ¬q < g.stop := by
      intro q hq
      have hle := le_trans hl.le hq
      exact ⟨Point.not_le.2 (lt_of_lt_of_le hg hle), Point.not_lt.2 hle⟩
    obtain ⟨hp₁, hp₂⟩ := hpast hstart
    obtain ⟨hf₁, hf₂⟩ := hpast (le_refl f.start)
    rw [List.cons_append, screenFrom, screenFrom, if_neg hp₁, if_neg hp₂, if_neg hf₁, if_neg hf₂]
    exact ih hl _

end Cuts

/-! ## What is displayed at a position -/

section Displayed

variable {t : Text} {a b p s : Point} {l l₁ l₂ : List Range}

/-- The screen shows, at a position between the folds, what is displayed behind it. -/
lemma showsAt_screenFrom (hs : t.Addressable s) (hl₁ : AddressableEnds t l₁)
    (hl₂ : AddressableEnds t l₂) (h₁ : Laid .origin s l₁) (h₂ : Laid s t.fullRange.stop l₂) :
    ShowsAt (foldedFrom t .origin (l₁ ++ l₂)).lines (screenFrom s .origin .origin (l₁ ++ l₂))
      (shownBetween t s t.fullRange.stop l₂).lineHead? := by
  have horigin := addressable_origin t
  rw [foldedFrom_eq, shownBetween_append horigin hs (addressable_stop t) hl₁ hl₂ h₁ h₂,
    screenFrom_append horigin hs hl₁ h₁ (fun f hf => (h₂.mem hf).1)]
  exact showsAt_append (cleanSeam_shownBetween horigin hs hl₁ h₁)

/-- Between the folds, what is displayed starts as the text does. -/
lemma lineHead?_shownBetween (hp : t.Addressable p) (hl : AddressableEnds t l)
    (h : Laid p t.fullRange.stop l) (hafter : ∀ f ∈ l, p < f.start) :
    (shownBetween t p t.fullRange.stop l).lineHead? =
      (t.slice ⟨p, t.fullRange.stop⟩).lineHead? := by
  have hstop := addressable_stop t
  by_cases hend : t.offset p < t.length
  · -- one step further is still in front of the folds, and the step alone decides
    obtain ⟨hnext, hoffset⟩ := offset_next hp hend
    have hpos := stepLength_pos (t.drop (t.offset p))
    have hle : p ≤ t.next p := (offset_le_offset_iff hp hnext).1 (by omega)
    have hne : t.slice ⟨p, t.next p⟩ ≠ [] := by
      intro hnil
      have hlength := length_slice (a := p) hnext
      rw [hnil, List.length_nil] at hlength
      omega
    have key : ∀ k, AddressableEnds t k → Laid p t.fullRange.stop k → (∀ f ∈ k, p < f.start) →
        (shownBetween t p t.fullRange.stop k).lineHead? = (t.slice ⟨p, t.next p⟩).lineHead? := by
      intro k hk hlaid hbehind
      have hrest : Laid (t.next p) t.fullRange.stop k := by
        cases k with
        | nil => exact le_stop hnext
        | cons g k =>
          have hg := (hk g (by simp)).1
          have hlt := (offset_lt_offset_iff hp hg).2 (hbehind g (by simp))
          refine ⟨(offset_le_offset_iff hnext hg).1 ?_, hlaid.2⟩
          rw [hoffset]
          exact hg.isCut.step_le hlt
      have hsplit := shownBetween_append (l := []) hp hnext hstop (by simp [AddressableEnds]) hk hle
        hrest
      rw [List.nil_append] at hsplit
      rw [hsplit]
      exact lineHead?_append hne
        (cleanSeam_shownBetween (l := []) hp hnext (by simp [AddressableEnds]) hle)
    rw [key l hl h hafter]
    exact (key [] (by simp [AddressableEnds]) h.le (by simp)).symm
  · -- no fold starts behind the end of the text
    have hlast : t.fullRange.stop ≤ p := by
      refine (offset_le_offset_iff hstop hp).1 ?_
      rw [offset_stop]
      omega
    cases l with
    | nil => rfl
    | cons f l =>
      have hlt := hafter f (by simp)
      have hle := le_trans (le_of_lt h.2.1) h.2.2.le
      exact absurd (lt_of_lt_of_le hlt (le_trans hle hlast)) (Point.not_lt.2 (le_refl p))

/-- What the first line of the text from a position on starts with stands on the row of the
position. -/
lemma lineHead?_slice (hp : t.Addressable p) :
    (t.slice ⟨p, t.fullRange.stop⟩).lineHead? =
      if p.column < t.lineLength p.row then (t.fromRow p.row)[p.column]? else none := by
  have hslice : t.slice ⟨p, t.fullRange.stop⟩ = (t.fromRow p.row).drop p.column := by
    rw [slice_stop, offset_eq hp, ← List.drop_drop, drop_rowStart]
  have hlength : firstLineLength ((t.fromRow p.row).drop p.column) =
      t.lineLength p.row - p.column := firstLineLength_drop (addressable_iff.1 hp).2
  rw [hslice, lineHead?_eq, hlength, List.head?_drop]
  by_cases hlt : p.column < t.lineLength p.row
  · rw [if_pos (Nat.sub_pos_of_lt hlt), if_pos hlt]
  · rw [if_neg (mt Nat.lt_of_sub_pos hlt), if_neg hlt]

/-- A position that no fold covers is drawn where the character after it is displayed. -/
lemma showsAt_of_not_covered (hp : t.Addressable p) (hends : AddressableEnds t l)
    (hlaid : Laid .origin t.fullRange.stop l) (hfree : ∀ f ∈ l, f.start ≤ p → ¬p < f.stop) :
    ShowsAt (foldedFrom t .origin l).lines (screenFrom p .origin .origin l)
      (if p.column < t.lineLength p.row then (t.fromRow p.row)[p.column]? else none) := by
  obtain ⟨l₁, l₂, rfl, h₁, h₂, hafter⟩ := hlaid.cut (origin_le p) (le_stop hp) hfree
  have hl₁ : AddressableEnds t l₁ := fun r hr => hends r (List.mem_append_left _ hr)
  have hl₂ : AddressableEnds t l₂ := fun r hr => hends r (List.mem_append_right _ hr)
  rw [← lineHead?_slice hp, ← lineHead?_shownBetween hp hl₂ h₂ hafter]
  exact showsAt_screenFrom hp hl₁ hl₂ h₁ h₂

/-- The placeholder of a fold stands at a screen position: what is displayed before that position
is what is shown of the text before the fold, and behind the placeholder comes what is shown of the
text after the fold. -/
def PlaceholderAt (t : Text) (l : List Range) (f : Range) (q : Point) : Prop :=
  ∃ before after, l = before ++ f :: after ∧
    linesBefore (foldedFrom t .origin l).lines q = (shownBetween t .origin f.start before).lines ∧
    linesAfter (foldedFrom t .origin l).lines q =
      Text.lines (foldPlaceholder :: shownBetween t f.stop t.fullRange.stop after)

/-- A position that a fold covers is drawn at its placeholder. -/
lemma showsAt_of_covered {f : Range} (hends : AddressableEnds t l)
    (hlaid : Laid .origin t.fullRange.stop l) (hf : f ∈ l) (hstart : f.start ≤ p)
    (hstop : p < f.stop) :
    ShowsAt (foldedFrom t .origin l).lines (screenFrom p .origin .origin l) (some foldPlaceholder) ∧
      PlaceholderAt t l f (screenFrom p .origin .origin l) := by
  obtain ⟨before, after, rfl⟩ := List.append_of_mem hf
  obtain ⟨hbefore, hfrom⟩ := hlaid.split
  have horigin := addressable_origin t
  have hfstart := (hends f hf).1
  have hends₁ : AddressableEnds t before := fun r hr => hends r (List.mem_append_left _ hr)
  have hends₂ : AddressableEnds t (f :: after) := fun r hr => hends r (List.mem_append_right _ hr)
  -- behind the start of the fold nothing but the placeholder comes first
  have hshown : shownBetween t f.start t.fullRange.stop (f :: after) =
      foldPlaceholder :: shownBetween t f.stop t.fullRange.stop after := by
    rw [shownBetween, slice_self, List.nil_append]
  rw [screenFrom_covered hbefore hstart hstop]
  constructor
  · have hshows := showsAt_screenFrom hfstart hends₁ hends₂ hbefore hfrom
    rwa [hshown, lineHead?_cons (by decide) (by simp [CleanSeam, foldPlaceholder])] at hshows
  · have hseam : CleanSeam (shownBetween t .origin f.start before)
        (shownBetween t f.start t.fullRange.stop (f :: after)) :=
      cleanSeam_shownBetween horigin hfstart hends₁ hbefore
    refine ⟨before, after, rfl, ?_⟩
    rw [screenFrom_append horigin hfstart hends₁ hbefore (fun g hg => (hfrom.mem hg).1),
      foldedFrom_eq,
      shownBetween_append horigin hfstart (addressable_stop t) hends₁ hends₂ hbefore hfrom,
      linesBefore_lines hseam, linesAfter_lines hseam, hshown]
    exact ⟨rfl, rfl⟩

end Displayed

namespace Editor

variable {e : Editor} {p : Point}

/-- The folds of an editor whose ends can be addressed are drawn within its text. -/
lemma Reachable.laid_folds (he : e.Reachable) (hfolds : AddressableEnds e.text e.folds.values) :
    Laid .origin e.text.fullRange.stop (effectiveFolds e.folds.values) := by
  refine laid_effectiveFolds (origin_le _) fun f hf => ⟨?_, fun _ => ⟨origin_le _, ?_⟩⟩
  · obtain ⟨id, hid⟩ := Table.mem_values_iff.1 hf
    exact he.kept.foldOrder id f hid
  · exact le_stop (hfolds f hf).2

/-- A position is drawn on the screen where `screenLines` displays it: at the placeholder of the
fold that covers it, else in front of the character it stands before, else at the end of a line. -/
theorem screenLines_at_screenPoint (he : e.Reachable)
    (hfolds : AddressableEnds e.text e.folds.values) (hp : e.text.Addressable p) :
    ∃ shown, e.screenLines[(e.screenPoint p).row]? = some shown ∧
      (e.screenPoint p).column ≤ shown.length ∧
      (∀ f ∈ effectiveFolds e.folds.values, f.start ≤ p → p < f.stop →
        shown[(e.screenPoint p).column]? = some foldPlaceholder ∧
          PlaceholderAt e.text (effectiveFolds e.folds.values) f (e.screenPoint p)) ∧
      ((∀ f ∈ effectiveFolds e.folds.values, f.start ≤ p → ¬p < f.stop) →
        (p.column < e.text.lineLength p.row →
          ∃ c, (e.text.fromRow p.row)[p.column]? = some c ∧
            shown[(e.screenPoint p).column]? = some c) ∧
        (p.column = e.text.lineLength p.row → (e.screenPoint p).column = shown.length)) := by
  have hlaid := he.laid_folds hfolds
  have hends := hfolds.effectiveFolds
  have hpoint : e.screenPoint p =
      screenFrom p .origin .origin (effectiveFolds e.folds.values) := by
    rw [Editor.screenPoint, TemplateFolding.screenPoint, hp]
  have hcovered : ∀ f ∈ effectiveFolds e.folds.values, f.start ≤ p → p < f.stop →
      ShowsAt e.screenLines (e.screenPoint p) (some foldPlaceholder) ∧
        PlaceholderAt e.text (effectiveFolds e.folds.values) f (e.screenPoint p) := by
    intro f hf hstart hstop
    rw [hpoint]
    exact showsAt_of_covered hends hlaid hf hstart hstop
  have hfree : (∀ f ∈ effectiveFolds e.folds.values, f.start ≤ p → ¬p < f.stop) →
      ShowsAt e.screenLines (e.screenPoint p)
        (if p.column < e.text.lineLength p.row then (e.text.fromRow p.row)[p.column]? else none) := by
    intro hclear
    rw [hpoint]
    exact showsAt_of_not_covered hp hends hlaid hclear
  -- covered or not, the position is on the screen
  obtain ⟨c?, hshows⟩ : ∃ c?, ShowsAt e.screenLines (e.screenPoint p) c? := by
    by_cases hclear : ∀ f ∈ effectiveFolds e.folds.values, f.start ≤ p → ¬p < f.stop
    · exact ⟨_, hfree hclear⟩
    · push Not at hclear
      obtain ⟨f, hf, hstart, hstop⟩ := hclear
      exact ⟨_, (hcovered f hf hstart hstop).1⟩
  obtain ⟨shown, hline⟩ := hshows.exists_line
  refine ⟨shown, hline, (hshows.getElem? hline).1, ?_, ?_⟩
  · intro f hf hstart hstop
    obtain ⟨hplaceholder, hat⟩ := hcovered f hf hstart hstop
    exact ⟨(hplaceholder.getElem? hline).2, hat⟩
  · intro hclear
    obtain ⟨hle, hchar⟩ := (hfree hclear).getElem? hline
    constructor
    · intro hlt
      have hlength := length_of_lt_lineLength hlt
      rw [if_pos hlt, List.getElem?_eq_getElem hlength] at hchar
      exact ⟨_, List.getElem?_eq_getElem hlength, hchar⟩
    · intro hend
      rw [if_neg (by omega), List.getElem?_eq_none_iff] at hchar
      exact Nat.le_antisymm hle hchar

/-- Two overlapping folds across a CRLF line ending with a third one right behind them: the
position between the two placeholders is covered by the second, and the row behind them ends where
its line does. -/
theorem screenLines_at_screenPoint_adjacent :
    let e : Editor := runAll { text := "ab\r\ncd\re\r\n".toList }
      [.fold ⟨⟨0, 1⟩, ⟨1, 1⟩⟩, .fold ⟨⟨0, 2⟩, ⟨1, 2⟩⟩, .fold ⟨⟨1, 2⟩, ⟨1, 3⟩⟩, .fold ⟨⟨0, 0⟩, ⟨0, 0⟩⟩]
    (∃ shown, e.screenLines[(e.screenPoint ⟨1, 2⟩).row]? = some shown ∧
      shown[(e.screenPoint ⟨1, 2⟩).column]? = some foldPlaceholder ∧
      PlaceholderAt e.text (effectiveFolds e.folds.values) ⟨⟨1, 2⟩, ⟨1, 3⟩⟩ (e.screenPoint ⟨1, 2⟩)) ∧
    ∃ shown, e.screenLines[(e.screenPoint ⟨1, 4⟩).row]? = some shown ∧
      (e.screenPoint ⟨1, 4⟩).column = shown.length := by
  intro e
  have he : e.Reachable := ⟨_, _, _, rfl⟩
  have hfolds : AddressableEnds e.text e.folds.values := by unfold AddressableEnds; decide
  obtain ⟨shown, hline, -, hcovered, -⟩ :=
    screenLines_at_screenPoint (p := ⟨1, 2⟩) he hfolds (by decide)
  obtain ⟨shown', hline', -, -, hfree⟩ :=
    screenLines_at_screenPoint (p := ⟨1, 4⟩) he hfolds (by decide)
  exact ⟨⟨shown, hline, hcovered ⟨⟨1, 2⟩, ⟨1, 3⟩⟩ (by decide) (by decide) (by decide)⟩,
    shown', hline', (hfree (by decide)).2 (by decide)⟩

end Editor

end TemplateFolding
