import TemplateFolding.Proofs.MovedText
import TemplateFolding.Proofs.PlainScreen
import TemplateFolding.Proofs.ScreenOrder

/-!
# An editor that checks its arithmetic

The editor subtracts positions from each other and cuts its text at offsets. With natural numbers
and lists neither can fail: a difference stops at zero and a cut at the end of the text. `Checked`
has the same operations once more, with `none` for a difference that would be negative, for a row,
character or offset that does not exist, and for a cut that ends before it starts.

Main statement: no run of the editor meets a `none`, whatever is inserted, folded and tracked, and
the results are those of the unchecked operations.

Two invariants carry it. Tracked ranges stop no earlier than they start, so that drawn folds stand
one after the other and differences are taken the right way round. And folds stay on the rows of the
text. Their columns need not stay within these rows, since an edit that joins a carriage return with
a line feed shortens a row, but between positions on the rows clipping keeps the order.
-/

namespace TemplateFolding

/-! ## Rows and line endings -/

namespace Text

variable {t v : Text} {row : Nat} {p q : Point}

/-- Without a line feed the first line is the whole text. -/
lemma firstLineLength_of_notMem (h : '\n' ∉ v) : firstLineLength v = v.length := by
  fun_induction firstLineLength v with
  | case1 => rfl
  | case2 => simp at h
  | case3 => simp at h
  | case4 c v _ _ ih =>
    rw [ih fun hn => h (List.mem_cons_of_mem _ hn)]
    rfl

/-- Before a line feed the last character of the line counts unless it is a carriage return. -/
lemma firstLineLength_append_lf (h : '\n' ∉ v) (u : Text) :
    firstLineLength (v ++ '\n' :: u) =
      if v.getLast? = some '\r' then v.length - 1 else v.length := by
  induction v with
  | nil => rfl
  | cons c v ih =>
    rw [List.mem_cons, not_or] at h
    cases v with
    | nil =>
      by_cases hc : c = '\r'
      · subst hc
        rfl
      · rw [List.cons_append, firstLineLength_cons (Ne.symm h.1) (by simp [CleanSeam, hc])]
        simp [firstLineLength, hc]
    | cons d v =>
      have hd : d ≠ '\n' := fun heq => h.2 (by simp [heq])
      rw [List.cons_append, firstLineLength_cons (Ne.symm h.1) (by simp [CleanSeam, hd]),
        ih h.2, List.getLast?_cons_cons]
      simp only [List.length_cons]
      split_ifs <;> omega

/-- There is nothing on a row below the last one. -/
lemma lineLength_of_lastRow_lt (h : t.lastRow < row) : t.lineLength row = 0 := by
  induction t generalizing row with
  | nil =>
    cases row with
    | zero => simp [lastRow] at h
    | succ row => rfl
  | cons c t ih =>
    cases row with
    | zero => omega
    | succ row =>
      by_cases hc : c = '\n'
      · subst hc
        rw [lastRow_cons_lf] at h
        rw [lineLength_succ_lf, ih (by omega)]
      · rw [lastRow_cons hc] at h
        rw [lineLength_succ hc, ih h]

/-- Between positions on the rows of a text clipping keeps the order. -/
lemma offset_le_offset (h : p ≤ q) (hq : q.row ≤ t.lastRow) : t.offset p ≤ t.offset q := by
  rw [← offset_clip t p, ← offset_clip t q,
    offset_le_offset_iff (addressable_clip t p) (addressable_clip t q)]
  exact clip_le_clip h hq

end Text

namespace Checked

/-- The difference of two numbers, refused when it would be negative. -/
def minus (m n : Nat) : Option Nat :=
  if n ≤ m then some (m - n) else none

lemma minus_eq_some {m n : Nat} (h : n ≤ m) : minus m n = some (m - n) :=
  if_pos h

/-! ## Edits -/

/-- Where a position at or after the replaced text goes. -/
def shift (edit : Edit) (p : Point) : Option Point :=
  if p.row = edit.oldStop.row then do
    let columns ← minus p.column edit.oldStop.column
    return ⟨edit.newStop.row, edit.newStop.column + columns⟩
  else do
    let rows ← minus p.row edit.oldStop.row
    return ⟨rows + edit.newStop.row, p.column⟩

/-- Where a tracked range goes. -/
def mapRange (edit : Edit) (r : Range) : Option Range :=
  if edit.oldStop ≤ r.start then do
    let start ← shift edit r.start
    let stop ← shift edit r.stop
    return ⟨start, stop⟩
  else if r.stop ≤ edit.start then some r
  else
    (if edit.oldStop ≤ r.stop then shift edit r.stop else some edit.newStop).map
      (.between (if r.start ≤ edit.start then r.start else edit.newStop))

/-- Where the cursor goes. -/
def mapCursor (edit : Edit) (p : Point) : Option Point :=
  if p < edit.start then some p
  else if edit.oldStop ≤ p then shift edit p
  else some edit.newStop

/-- What an edit makes of a marker. -/
def afterEdit (edit : Edit) (m : Marker) : Option Marker :=
  if m.valid then do
    let range ← mapRange edit m.range
    return ⟨range, !edit.hitsInside m.range⟩
  else some m

section Edits

variable {edit : Edit} {p : Point} {r : Range} {m : Marker}

/-- Moving a point behind the replaced text subtracts nothing that is too large. -/
lemma shift_eq_some (h : edit.oldStop ≤ p) : shift edit p = some (edit.shift p) := by
  rw [Point.le_iff] at h
  unfold shift Edit.shift
  split_ifs with hrow
  · rw [minus_eq_some (by omega)]
    rfl
  · rw [minus_eq_some (by omega)]
    rfl

example : shift ⟨⟨0, 1⟩, ⟨1, 2⟩, ⟨0, 1⟩⟩ ⟨1, 1⟩ = none := by decide

/-- A range whose ends are in order is mapped without a fault. -/
lemma mapRange_eq_some (h : r.start ≤ r.stop) : mapRange edit r = some (edit.mapRange r) := by
  unfold mapRange Edit.mapRange
  by_cases hafter : edit.oldStop ≤ r.start
  · rw [if_pos hafter, if_pos hafter, shift_eq_some hafter,
      shift_eq_some (Point.le_trans hafter h)]
    rfl
  · rw [if_neg hafter, if_neg hafter]
    split
    · rfl
    · by_cases hstop : edit.oldStop ≤ r.stop
      · rw [if_pos hstop, if_pos hstop, shift_eq_some hstop]
        rfl
      · rw [if_neg hstop, if_neg hstop]
        rfl

/-- The cursor is mapped without a fault, wherever it is. -/
lemma mapCursor_eq_some : mapCursor edit p = some (edit.mapCursor p) := by
  unfold mapCursor Edit.mapCursor
  split_ifs with hbefore hafter
  · rfl
  · exact shift_eq_some hafter
  · rfl

/-- A marker whose ends are in order is mapped without a fault. -/
lemma afterEdit_eq_some (h : m.range.start ≤ m.range.stop) :
    afterEdit edit m = some (m.afterEdit edit) := by
  unfold afterEdit Marker.afterEdit
  split_ifs with hvalid
  · rw [mapRange_eq_some h]
    rfl
  · rfl

end Edits

/-! ## Reading and cutting the text -/

/-- A row with its line ending, if there is such a row. -/
def line (t : Text) (row : Nat) : Option Text :=
  if row ≤ t.lastRow then
    some ((t.fromRow row).takeWhile (· != '\n') ++ ((t.fromRow row).dropWhile (· != '\n')).take 1)
  else none

/-- The number of characters of a line without its line ending, which is recognized by the last
characters of the line. -/
def unendedLength (t : Text) : Option Nat :=
  if t.length = 0 then some 0
  else do
    let last ← t[t.length - 1]?
    if last ≠ '\n' then return t.length
    else if t.length = 1 then return 0
    else do
      let before ← t[t.length - 2]?
      return if before = '\r' then t.length - 2 else t.length - 1

/-- The number of characters on a row, its line ending excluded. -/
def lineLength (t : Text) (row : Nat) : Option Nat :=
  if t.lastRow < row then some 0
  else do
    let whole ← line t row
    unendedLength whole

/-- The nearest position on the rows of the text. -/
def clip (t : Text) (p : Point) : Option Point := do
  let row := min p.row t.lastRow
  let length ← lineLength t row
  return ⟨row, min p.column length⟩

/-- The number of characters before a row, if there is such a row. -/
def rowStart (t : Text) (row : Nat) : Option Nat :=
  if row ≤ t.lastRow then some (Text.rowStart row t) else none

/-- The number of characters before a position, which is clipped first. -/
def offset (t : Text) (p : Point) : Option Nat := do
  let q ← clip t p
  let start ← rowStart t q.row
  return start + q.column

/-- The text between two positions. -/
def slice (t : Text) (r : Range) : Option Text := do
  let start ← offset t r.start
  let stop ← offset t r.stop
  t.cut? start stop

/-- The text without the characters between two offsets. -/
def remove (t : Text) (start stop : Nat) : Option Text :=
  if start ≤ stop ∧ stop ≤ t.length then some (t.take start ++ t.drop stop) else none

/-- The text with more characters at an offset. -/
def insertAt (t : Text) (n : Nat) (inserted : Text) : Option Text :=
  if n ≤ t.length then some (t.take n ++ inserted ++ t.drop n) else none

/-- The text with what stands between two positions replaced. -/
def splice (t : Text) (r : Range) (inserted : Text) : Option Text := do
  let start ← offset t r.start
  let stop ← offset t r.stop
  let rest ← remove t start stop
  insertAt rest start inserted

section Text

variable {t v : Text} {r : Range}

/-- A line that ends is as long as the text in front of its line ending. -/
lemma unendedLength_append_lf (v : Text) :
    unendedLength (v ++ ['\n']) =
      some (if v.getLast? = some '\r' then v.length - 1 else v.length) := by
  have hlast : (v ++ ['\n'])[v.length]? = some '\n' := by simp
  unfold unendedLength
  simp only [List.length_append, List.length_singleton, Nat.add_sub_cancel, hlast]
  rcases List.eq_nil_or_concat v with rfl | ⟨w, c, rfl⟩
  · rfl
  · simp

lemma unendedLength_of_notMem (h : '\n' ∉ v) : unendedLength v = some v.length := by
  unfold unendedLength
  by_cases hlength : v.length = 0
  · rw [if_pos hlength, hlength]
  · have hbound : v.length - 1 < v.length := by omega
    have hlast : v[v.length - 1]? = some v[v.length - 1] := List.getElem?_eq_getElem hbound
    have hne : v[v.length - 1] ≠ '\n' := fun heq => h (heq ▸ List.getElem_mem hbound)
    rw [if_neg hlength, hlast]
    exact if_pos hne

/-- The length of every line can be found, also of a line that does not exist. -/
lemma lineLength_eq_some (t : Text) (row : Nat) : lineLength t row = some (t.lineLength row) := by
  unfold lineLength
  split_ifs with hrow
  · rw [Text.lineLength_of_lastRow_lt hrow]
  · rw [line, if_pos (Nat.le_of_not_lt hrow), Text.lineLength]
    show unendedLength _ = _
    generalize t.fromRow row = u
    have hfront : '\n' ∉ u.takeWhile (· != '\n') := by
      intro hmem
      simpa using List.all_eq_true.1 List.all_takeWhile _ hmem
    have hsplit : u.takeWhile (· != '\n') ++ u.dropWhile (· != '\n') = u :=
      List.takeWhile_append_dropWhile
    cases hrest : u.dropWhile (· != '\n') with
    | nil =>
      rw [hrest, List.append_nil] at hsplit
      rw [List.take_nil, List.append_nil, unendedLength_of_notMem hfront, hsplit,
        Text.firstLineLength_of_notMem (hsplit ▸ hfront)]
    | cons c w =>
      -- the row ends at the first line feed
      have hc : c = '\n' := by
        have hhead := List.head?_dropWhile_not (· != '\n') u
        rw [hrest] at hhead
        simpa using hhead
      rw [hrest, hc] at hsplit
      rw [hc]
      show unendedLength (_ ++ ['\n']) = _
      rw [unendedLength_append_lf, ← Text.firstLineLength_append_lf hfront w, hsplit]

lemma clip_eq_some (t : Text) (p : Point) : clip t p = some (t.clip p) := by
  rw [clip, lineLength_eq_some]
  rfl

lemma offset_eq_some (t : Text) (p : Point) : offset t p = some (t.offset p) := by
  rw [offset, clip_eq_some]
  show (rowStart t (t.clip p).row >>= _) = _
  rw [rowStart, if_pos (Text.addressable_iff.1 (Text.addressable_clip t p)).1]
  rfl

lemma slice_eq_some (h : t.offset r.start ≤ t.offset r.stop) : slice t r = some (t.slice r) := by
  rw [slice, offset_eq_some, offset_eq_some]
  exact if_pos ⟨h, Text.offset_le_length t r.stop⟩

lemma splice_eq_some (h : t.offset r.start ≤ t.offset r.stop) (inserted : Text) :
    splice t r inserted = some (t.splice r inserted) := by
  have hlength : (t.take (t.offset r.start)).length = t.offset r.start := by
    rw [List.length_take, Nat.min_eq_left (Text.offset_le_length t r.start)]
  rw [splice, offset_eq_some, offset_eq_some]
  show (remove t _ _ >>= _) = _
  rw [remove, if_pos ⟨h, Text.offset_le_length t r.stop⟩]
  show insertAt _ _ _ = _
  rw [insertAt, if_pos (by rw [List.length_append, hlength]; omega), Text.splice,
    List.take_left' hlength, List.drop_left' hlength]

end Text

/-! ## The screen -/

/-- The screen position of `target`, reckoned from the buffer position `anchor` at `screen`. -/
def carry (anchor screen target : Point) : Option Point :=
  if target.row = anchor.row then do
    let columns ← minus target.column anchor.column
    return ⟨screen.row, screen.column + columns⟩
  else do
    let rows ← minus target.row anchor.row
    return ⟨screen.row + rows, target.column⟩

/-- The screen position of `p`, reckoned past the folds after `anchor`. -/
def screenFrom (p anchor screen : Point) : List Range → Option Point
  | [] => carry anchor screen p
  | fold :: rest =>
    if p ≤ fold.start then carry anchor screen p
    else do
      let placeholder ← carry anchor screen fold.start
      if p < fold.stop then return placeholder
      else screenFrom p fold.stop ⟨placeholder.row, placeholder.column + 1⟩ rest

/-- The text from `start` on with each of the folds replaced by its placeholder. -/
def foldedFrom (t : Text) (start : Point) : List Range → Option Text
  | [] => do
    let length ← lineLength t t.lastRow
    if start < ⟨t.lastRow, length⟩ then slice t ⟨start, ⟨t.lastRow, length⟩⟩ else return []
  | fold :: rest => do
    let before ← slice t ⟨start, fold.start⟩
    let after ← foldedFrom t fold.stop rest
    return before ++ foldPlaceholder :: after

section Screen

variable {t : Text} {a b p s : Point} {l : List Range}

/-- Reckoning on from a point to a later one subtracts nothing that is too large. -/
lemma carry_eq_some (h : a ≤ p) (s : Point) : carry a s p = some (a.carry s p) := by
  rw [Point.le_iff] at h
  unfold carry Point.carry
  split_ifs with hrow
  · rw [minus_eq_some (by omega)]
    rfl
  · rw [minus_eq_some (by omega)]
    rfl

/-- Past folds that stand one after the other every difference is taken the right way round. -/
lemma screenFrom_eq_some (h : Range.Laid a b l) (hap : a ≤ p) (s : Point) :
    screenFrom p a s l = some (TemplateFolding.screenFrom p a s l) := by
  induction l generalizing a s with
  | nil => exact carry_eq_some hap s
  | cons f l ih =>
    obtain ⟨haf, hf, hl⟩ := h
    rcases cases_fold p f with hp | ⟨hp, hp'⟩ | hp
    · rw [screenFrom, if_pos hp, screenFrom_before hp, carry_eq_some hap]
    · rw [screenFrom, if_neg (Point.not_le.2 hp), carry_eq_some haf, screenFrom_inside hp hp']
      exact if_pos hp'
    · rw [screenFrom, if_neg (Point.not_le.2 (Point.lt_of_lt_of_le hf hp)), carry_eq_some haf,
        screenFrom_after hf hp, ← ih hl hp]
      exact if_neg (Point.not_lt.2 hp)

example : screenFrom ⟨0, 5⟩ .origin .origin [⟨⟨0, 3⟩, ⟨0, 4⟩⟩, ⟨⟨0, 1⟩, ⟨0, 2⟩⟩] = none := by decide

/-- What is displayed can be put together from folds that are laid out on rows of the text. -/
lemma foldedFrom_eq_some (h : Range.Laid a b l) (ha : a.row ≤ t.lastRow)
    (hl : ∀ f ∈ l, f.stop.row ≤ t.lastRow) :
    foldedFrom t a l = some (TemplateFolding.foldedFrom t a l) := by
  induction l generalizing a with
  | nil =>
    have hstop : (⟨t.lastRow, t.lineLength t.lastRow⟩ : Point) = t.fullRange.stop :=
      (Text.lineEnd_eq (Nat.le_refl _)).symm
    rw [foldedFrom, lineLength_eq_some]
    show (if a < ⟨t.lastRow, t.lineLength t.lastRow⟩ then _ else _) = _
    rw [hstop, TemplateFolding.foldedFrom]
    split_ifs with hlt
    · exact slice_eq_some (Text.offset_le_offset (Point.le_of_lt hlt)
        (Text.addressable_iff.1 (Text.addressable_stop t)).1)
    · -- behind the last character there is nothing left
      have hle := Text.offset_le_offset (Point.not_lt.1 hlt) ha
      rw [Text.slice, Nat.sub_eq_zero_of_le hle, List.take_zero]
      rfl
  | cons f l ih =>
    obtain ⟨haf, hf, hlaid⟩ := h
    have hstop : f.stop.row ≤ t.lastRow := hl f (by simp)
    have hstart : f.start.row ≤ t.lastRow := by
      rw [Point.lt_iff] at hf
      omega
    rw [foldedFrom, slice_eq_some (Text.offset_le_offset haf hstart),
      ih hlaid hstop fun g hg => hl g (List.mem_cons_of_mem _ hg)]
    rfl

/-- A fold on a row that the text does not have is clipped to a place before its predecessor. -/
example : foldedFrom "ab".toList .origin [⟨⟨0, 1⟩, ⟨0, 2⟩⟩, ⟨⟨1, 0⟩, ⟨1, 1⟩⟩] = none := by decide

end Screen

/-! ## Views of an editor -/

/-- Where a buffer position is drawn. -/
def screenPoint (e : Editor) (p : Point) : Option Point := do
  let q ← clip e.text p
  screenFrom q .origin .origin (effectiveFolds e.folds.values)

/-- Where the ends of a range are drawn. -/
def screenRange (e : Editor) (r : Range) : Option Range := do
  let start ← screenPoint e r.start
  let stop ← screenPoint e r.stop
  return ⟨start, stop⟩

/-- The buffer as displayed, line by line. -/
def screenLines (e : Editor) : Option (List Text) := do
  let shown ← foldedFrom e.text .origin (effectiveFolds e.folds.values)
  return shown.lines

/-- The overlay of a decoration, if its marker exists. -/
def overlayOf? (e : Editor) (d : Decoration) : Option (Option OverlayView) :=
  match e.markers.get? d.marker with
  | none => some none
  | some m => do
    let screen ← screenPoint e m.range.start
    return some ⟨d.marker, d.overlay, m.range, screen⟩

/-- The overlays in the order of their decorations. -/
def overlays (e : Editor) : Option (List OverlayView) :=
  e.decorations.values.filterMapM (overlayOf? e)

/-- The lines as displayed, with all overlays drawn. -/
def paintedLines (e : Editor) : Option (List Text) := do
  let lines ← screenLines e
  let views ← overlays e
  return views.foldl Editor.paint lines

lemma filterMapM_eq_some {α β : Type} {f : α → Option (Option β)} {g : α → Option β} {l : List α}
    (h : ∀ a ∈ l, f a = some (g a)) : l.filterMapM f = some (l.filterMap g) := by
  induction l with
  | nil => rfl
  | cons a l ih =>
    rw [List.filterMapM_cons, h a (by simp), ih fun b hb => h b (List.mem_cons_of_mem _ hb),
      List.filterMap_cons]
    cases g a <;> rfl

section Views

variable {e : Editor} (he : ∀ f ∈ e.folds.values, f.start ≤ f.stop)

include he

/-- Every position of an editor in order has a place on the screen. -/
lemma screenPoint_eq_some (p : Point) : screenPoint e p = some (e.screenPoint p) := by
  obtain ⟨b, hlaid⟩ := exists_laid_effectiveFolds he
  rw [screenPoint, clip_eq_some]
  exact screenFrom_eq_some hlaid (Point.origin_le _) _

lemma screenRange_eq_some (r : Range) : screenRange e r = some (e.screenRange r) := by
  rw [screenRange, screenPoint_eq_some he, screenPoint_eq_some he]
  rfl

lemma overlays_eq_some : overlays e = some e.overlays := by
  apply filterMapM_eq_some
  intro d _
  unfold overlayOf? Editor.overlayOf?
  cases e.markers.get? d.marker with
  | none => rfl
  | some m =>
    show (screenPoint e m.range.start >>= _) = _
    rw [screenPoint_eq_some he]
    rfl

end Views

/-! ## Notifications -/

/-- The notification due for a marker that was `m` before the change, if there is one. -/
def changeOf? (before after : Editor) (id : MarkerId) (m : Marker) :
    Option (Option MarkerChange) := do
  let old ← screenRange before m.range
  match after.markers.get? id with
  | none => return none
  | some m' => do
    let new ← screenRange after m'.range
    return if m'.valid ∧ m'.range = m.range ∧ new = old then none
      else some { marker := id, old, new, valid := m'.valid, textChanged := !m'.valid }

/-- The notifications due for the markers that were valid before the change. -/
def changesSince (before after : Editor) : Option (List MarkerChange) :=
  before.markers.entries.filterMapM fun (id, m) =>
    if m.valid then changeOf? before after id m else some none

/-- The move of the cursor, if it moved in the buffer or on the screen. -/
def cursorMoveSince? (before after : Editor) : Option (Option CursorMove) := do
  let oldScreen ← screenPoint before before.cursor
  let newScreen ← screenPoint after after.cursor
  return if after.cursor = before.cursor ∧ newScreen = oldScreen then none
    else some { old := before.cursor, new := after.cursor, oldScreen, newScreen }

/-- Makes a change and queues the notifications it causes. -/
def track (change : Editor → Option Editor) (e : Editor) : Option Editor := do
  let after ← change e
  let changes ← changesSince e after
  let move ← cursorMoveSince? e after
  return { after with
    markerChanges := changes.foldl MarkerChange.enqueue after.markerChanges
    cursorMoves := after.cursorMoves ++ move.toList }

section Notifications

variable {e after : Editor} (he : ∀ f ∈ e.folds.values, f.start ≤ f.stop)

include he

/-- The notifications of a change between editors in order can be made. -/
lemma changesSince_eq_some (ha : ∀ f ∈ after.folds.values, f.start ≤ f.stop) :
    changesSince e after = some (e.changesSince after) := by
  apply filterMapM_eq_some
  intro entry _
  obtain ⟨id, m⟩ := entry
  dsimp only
  split
  · unfold changeOf? Editor.changeOf?
    rw [screenRange_eq_some he]
    cases after.markers.get? id with
    | none => rfl
    | some m' =>
      show (screenRange after m'.range >>= _) = _
      rw [screenRange_eq_some ha]
      rfl
  · rfl

lemma cursorMoveSince?_eq_some (ha : ∀ f ∈ after.folds.values, f.start ≤ f.stop) :
    cursorMoveSince? e after = some (e.cursorMoveSince after) := by
  rw [cursorMoveSince?, screenPoint_eq_some he, screenPoint_eq_some ha]
  rfl

/-- A change without a fault between editors in order is tracked without a fault. -/
lemma track_eq_some {change : Editor → Option Editor} {plain : Editor → Editor}
    (ha : ∀ f ∈ (plain e).folds.values, f.start ≤ f.stop) (h : change e = some (plain e)) :
    track change e = some (e.track plain) := by
  rw [track, h]
  show (changesSince e (plain e) >>= _) = _
  rw [changesSince_eq_some he ha]
  show (cursorMoveSince? e (plain e) >>= _) = _
  rw [cursorMoveSince?_eq_some he ha]
  rfl

lemma track_some (plain : Editor → Editor) (ha : ∀ f ∈ (plain e).folds.values, f.start ≤ f.stop) :
    track (fun d => some (plain d)) e = some (e.track plain) :=
  track_eq_some he ha rfl

end Notifications

/-! ## Calls -/

/-- The table with every value replaced by its image, if all of them have one. -/
def mapTable {α β : Type} (f : α → Option β) (t : Table α) : Option (Table β) :=
  if t.entries.all fun e => (f e.2).isSome then
    some ⟨t.entries.filterMap fun e => (f e.2).map (e.1, ·), by
      refine t.ascending.filterMap _ fun a a' hlt b hb b' hb' => ?_
      obtain ⟨v, -, rfl⟩ := Option.map_eq_some_iff.1 hb
      obtain ⟨v', -, rfl⟩ := Option.map_eq_some_iff.1 hb'
      exact hlt⟩
  else none

/-- A range with its ends clipped to the text and put in order. -/
def clipRange (e : Editor) (r : Range) : Option Range := do
  let start ← clip e.text r.start
  let stop ← clip e.text r.stop
  return .between start stop

/-- Replaces the text of a range, and moves with it what is tracked. -/
def applyEdit (edit : Edit) (inserted : Text) (e : Editor) : Option Editor := do
  let text ← splice e.text ⟨edit.start, edit.oldStop⟩ inserted
  let markers ← mapTable (afterEdit edit) e.markers
  let folds ← mapTable (mapRange edit) (e.folds.filter fun _ fold => !edit.hitsInside fold)
  let cursor ← mapCursor edit e.cursor
  return { e with text, markers, folds, cursor }

/-- Replaces the text of a range; the result says where the new text stands. -/
def replace (e : Editor) (r : Range) (inserted : Text) : Option (Range × Editor) := do
  let r ← clipRange e r
  let stop := Text.pointAfter r.start inserted
  let after ← track (applyEdit ⟨r.start, r.stop, stop⟩ inserted) e
  return (⟨r.start, stop⟩, after)

/-- The editor after a call. -/
def run (e : Editor) : EditorCall → Option Editor
  | .insert p text => do
    let (_, after) ← replace e ⟨p, p⟩ text
    return after
  | .replace r text => do
    let (_, after) ← replace e r text
    return after
  | .setCursor p => do
    let q ← clip e.text p
    track (fun d => some { d with cursor := q }) e
  | .fold r => do
    let r ← clipRange e r
    track (fun d => some { d with folds := d.folds.insert e.nextId r })
      { e with nextId := e.nextId + 1 }
  | .destroyFold id =>
    if e.folds.contains id then
      track (fun d => some { d with folds := d.folds.erase id }) e
    else
      some e
  | .unfoldRow row =>
    track
      (fun d => some { d with folds := d.folds.filter fun _ fold => !Editor.touchesRow row fold }) e
  | .createMarker r => do
    let r ← clipRange e r
    return { e with nextId := e.nextId + 1, markers := e.markers.insert e.nextId ⟨r, true⟩ }
  | call => some (call.run e)

/-- The editor after calls made one after the other. -/
def runAll (e : Editor) (calls : List EditorCall) : Option Editor :=
  calls.foldlM run e

section Calls

variable {e : Editor}

/-- A table is mapped without a fault if each of its values is. -/
lemma mapTable_eq_some {α β : Type} {f : α → Option β} {g : α → β} {t : Table α}
    (h : ∀ k v, t.get? k = some v → f v = some (g v)) : mapTable f t = some (t.map g) := by
  have hmem : ∀ e ∈ t.entries, f e.2 = some (g e.2) := fun e he =>
    h e.1 e.2 (Table.mem_entries_iff.1 he)
  have hentries : (t.entries.filterMap fun e => (f e.2).map (e.1, ·)) =
      t.entries.map fun e => (e.1, g e.2) := by
    rw [List.filterMap_eq_map_iff_forall_eq_some]
    intro e he
    rw [hmem e he]
    rfl
  rw [mapTable, if_pos]
  · simp only [hentries]
    rfl
  · rw [List.all_eq_true]
    intro e he
    rw [hmem e he]
    rfl

lemma clipRange_eq_some (e : Editor) (r : Range) : clipRange e r = some (e.clipRange r) := by
  rw [clipRange, clip_eq_some, clip_eq_some]
  rfl

/-- The edit of a replacement is applied without a fault. -/
lemma applyEdit_eq_some (he : e.Kept) {edit : Edit} {inserted : Text}
    (hedit : edit.Replaces e.text inserted) :
    applyEdit edit inserted e = some (e.splice edit inserted) := by
  have htext : splice e.text ⟨edit.start, edit.oldStop⟩ inserted =
      some (e.text.splice ⟨edit.start, edit.oldStop⟩ inserted) :=
    splice_eq_some ((Text.offset_le_offset_iff hedit.start hedit.oldStop).2 hedit.ordered) inserted
  have hmarkers : mapTable (afterEdit edit) e.markers =
      some (e.markers.map fun m => m.afterEdit edit) :=
    mapTable_eq_some fun id m hm => afterEdit_eq_some (he.markerOrder id m hm)
  have hfolds : mapTable (mapRange edit) (e.folds.filter fun _ fold => !edit.hitsInside fold) =
      some ((e.folds.filter fun _ fold => !edit.hitsInside fold).map edit.mapRange) := by
    apply mapTable_eq_some
    intro id r hr
    rw [Table.get?_filter, Option.filter_eq_some_iff] at hr
    exact mapRange_eq_some (he.foldOrder id r hr.1)
  rw [applyEdit, htext, hmarkers, hfolds, mapCursor_eq_some]
  rfl

/-- Text of an editor in order is replaced without a fault. -/
lemma replace_eq_some (he : e.Kept) (r : Range) (inserted : Text) :
    replace e r inserted = some (e.replace r inserted) := by
  have htrack : track (applyEdit (e.editOf r inserted) inserted) e =
      some (e.track (·.splice (e.editOf r inserted) inserted)) :=
    track_eq_some he.ordered (he.splice _ _).ordered
      (applyEdit_eq_some he (e.replaces_editOf r inserted))
  rw [replace, clipRange_eq_some]
  show (track (applyEdit (e.editOf r inserted) inserted) e >>= _) = _
  rw [htrack]
  rfl

end Calls

end Checked

/-! ## Folds on the rows of the text -/

namespace Editor

variable {e e' : Editor}

/-- No fold reaches past the last row. -/
def FoldsOnRows (e : Editor) : Prop :=
  ∀ id r, e.folds.get? id = some r → r.stop.row ≤ e.text.lastRow

/-- After an edit the folds that are left are on rows of the new text. -/
lemma FoldsOnRows.splice (h : e.FoldsOnRows) (hk : e.Kept) {edit : Edit} {inserted : Text}
    (hedit : edit.Replaces e.text inserted) : (e.splice edit inserted).FoldsOnRows := by
  intro id r hr
  simp only [Editor.splice, Table.get?_map, Table.get?_filter, Option.map_eq_some_iff,
    Option.filter_eq_some_iff] at hr
  obtain ⟨r', ⟨hr', hmiss⟩, rfl⟩ := hr
  exact hedit.row_mapRange_le (by simpa using hmiss) (h id r' hr') (hk.foldOrder id r' hr')

lemma FoldsOnRows.filter (h : e.FoldsOnRows) (keep : Nat → Range → Bool) :
    ({ e with folds := e.folds.filter keep } : Editor).FoldsOnRows := by
  intro id r hr
  rw [Table.get?_filter, Option.filter_eq_some_iff] at hr
  exact h id r hr.1

/-- A new fold is clipped, and so it is on rows of the text. -/
lemma FoldsOnRows.fold (h : e.FoldsOnRows) (r : Range) : (e.fold r).2.FoldsOnRows := by
  intro id s hs
  have hs : (e.folds.insert e.nextId (e.clipRange r)).get? id = some s := hs
  rw [Table.get?_insert] at hs
  split_ifs at hs
  · rw [← Option.some.inj hs]
    exact (Text.addressable_iff.1 (e.replaces_editOf r []).oldStop).1
  · exact h id s hs

/-- Every call leaves the folds on rows of the text. -/
lemma FoldsOnRows.run (h : e.FoldsOnRows) (hk : e.Kept) (call : EditorCall) :
    (call.run e).FoldsOnRows := by
  cases call with
  | insert p text => exact h.splice hk (e.replaces_editOf ⟨p, p⟩ text)
  | replace r text => exact h.splice hk (e.replaces_editOf r text)
  | fold r => exact h.fold r
  | destroyFold id =>
    show (e.destroyFold id).FoldsOnRows
    unfold destroyFold
    split
    · exact h.filter _
    · exact h
  | unfoldRow row => exact h.filter _
  | _ => exact h

lemma FoldsOnRows.runAll (h : e.FoldsOnRows) (hk : e.Kept) (calls : List EditorCall) :
    (e.runAll calls).FoldsOnRows := by
  induction calls generalizing e with
  | nil => exact h
  | cons call calls ih => exact ih (h.run hk call) (hk.run call)

end Editor

namespace Checked

variable {e : Editor}

/-- The lines of the screen can be put together. -/
lemma screenLines_eq_some (he : e.Kept) (hrows : e.FoldsOnRows) :
    screenLines e = some e.screenLines := by
  obtain ⟨b, hlaid⟩ := exists_laid_effectiveFolds he.ordered
  have hdrawn : ∀ g ∈ effectiveFolds e.folds.values, g.stop.row ≤ e.text.lastRow := by
    intro g hg
    obtain ⟨-, f, hf, hstop⟩ := mem_effectiveFolds hg
    obtain ⟨id, hid⟩ := Table.mem_values_iff.1 hf
    rw [← hstop]
    exact hrows id f hid
  rw [screenLines, foldedFrom_eq_some hlaid (Nat.zero_le _) hdrawn]
  rfl

/-- Every call on an editor in order does without a fault what it does. -/
lemma run_eq_some (he : e.Kept) (call : EditorCall) : run e call = some (call.run e) := by
  cases call with
  | insert p text =>
    rw [run, replace_eq_some he]
    rfl
  | replace r text =>
    rw [run, replace_eq_some he]
    rfl
  | setCursor p =>
    rw [run, clip_eq_some]
    exact track_some he.ordered (fun d => { d with cursor := e.text.clip p }) he.ordered
  | fold r =>
    have hmade := (he.fold r).ordered
    rw [run, clipRange_eq_some]
    exact track_some (e := { e with nextId := e.nextId + 1 }) he.ordered
      (fun d => { d with folds := d.folds.insert e.nextId (e.clipRange r) }) hmade
  | destroyFold id =>
    show (if e.folds.contains id then _ else _) = some (e.destroyFold id)
    unfold Editor.destroyFold
    split
    · exact track_some he.ordered (fun d => { d with folds := d.folds.erase id })
        (he.filterFolds _).ordered
    · rfl
  | unfoldRow row =>
    exact track_some he.ordered
      (fun d => { d with folds := d.folds.filter fun _ fold => !Editor.touchesRow row fold })
      (he.filterFolds _).ordered
  | createMarker r =>
    rw [run, clipRange_eq_some]
    rfl
  | _ => rfl

/-- Every run of calls on an editor in order does without a fault what it does. -/
lemma runAll_eq_some (he : e.Kept) (calls : List EditorCall) :
    runAll e calls = some (e.runAll calls) := by
  induction calls generalizing e with
  | nil => rfl
  | cons call calls ih =>
    rw [runAll, List.foldlM_cons, run_eq_some he]
    exact ih (he.run call)

end Checked

namespace Editor

/-- **No faults.** Whatever is asked of an editor, with any text and at any positions, no difference
of positions is negative and no row, offset or cut is out of range, neither in the calls nor in what
is drawn afterwards. -/
theorem runAll_without_faults (text : Text) (settings : Settings) (calls : List EditorCall) :
    let e := runAll { text, settings } calls
    Checked.runAll { text, settings } calls = some e ∧
      (∀ p, Checked.screenPoint e p = some (e.screenPoint p)) ∧
      Checked.screenLines e = some e.screenLines ∧
      Checked.overlays e = some e.overlays ∧
      Checked.paintedLines e = some e.paintedLines := by
  intro e
  have hnew := kept_new text settings
  have hkept : e.Kept := hnew.runAll calls
  have hrows : e.FoldsOnRows := FoldsOnRows.runAll (fun _ _ h => by simp at h) hnew calls
  have hlines := Checked.screenLines_eq_some hkept hrows
  have hoverlays := Checked.overlays_eq_some hkept.ordered
  refine ⟨Checked.runAll_eq_some hnew calls, Checked.screenPoint_eq_some hkept.ordered, hlines,
    hoverlays, ?_⟩
  rw [Checked.paintedLines, hlines, hoverlays]
  rfl

end Editor

end TemplateFolding
