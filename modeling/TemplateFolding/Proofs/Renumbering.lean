import Mathlib.Order.Hom.Basic
import TemplateFolding.Proofs.Ownership

/-!
# Numbers do not matter

The numbers of folds, markers, decorations and foldings are compared with each other and nothing
else is read from them. An editor whose numbers are replaced by others in the same order does the
same things, with the new numbers in place of the old ones. The one condition is that the next
number to be handed out is followed by numbers that are handed out in step.
-/

namespace TemplateFolding

/-! ## Tables -/

namespace Table

variable {α β γ : Type} {t u : Table α} {φ : Nat ↪o Nat} {g : α → β} {k : Nat}

/-- The table with other keys in the same order, and the images of the values. -/
def renumber (t : Table α) (φ : Nat ↪o Nat) (g : α → β) : Table β :=
  ⟨t.entries.map fun e => (φ e.1, g e.2),
    List.pairwise_map.2 (t.ascending.imp fun h => φ.strictMono h)⟩

@[simp] lemma values_renumber (t : Table α) : (t.renumber φ g).values = t.values.map g := by
  simp [values, renumber]

@[simp] lemma size_renumber (t : Table α) : (t.renumber φ g).size = t.size := by
  simp [size, renumber]

/-- What stood at a number stands at the new number. -/
@[simp] lemma get?_renumber (t : Table α) (k : Nat) :
    (t.renumber φ g).get? (φ k) = (t.get? k).map g := by
  have hfind : ∀ l : List (Nat × α),
      find? (φ k) (l.map fun e => (φ e.1, g e.2)) = (find? k l).map g := by
    intro l
    induction l with
    | nil => rfl
    | cons e l ih =>
      obtain ⟨key, value⟩ := e
      rw [List.map_cons, find?, find?, ih]
      by_cases hk : key = k
      · rw [if_pos hk, if_pos (by rw [hk])]
        rfl
      · rw [if_neg hk, if_neg fun heq => hk (φ.injective heq)]
  exact hfind t.entries

@[simp] lemma contains_renumber (t : Table α) (k : Nat) :
    (t.renumber φ g).contains (φ k) = t.contains k := by
  rw [contains, contains, get?_renumber, Option.isSome_map]

/-- It does not matter whether a value is inserted or numbers are changed first. -/
lemma insert_renumber (t : Table α) (k : Nat) (v : α) :
    (t.renumber φ g).insert (φ k) (g v) = (t.insert k v).renumber φ g := by
  have hplace : ∀ l : List (Nat × α),
      place (φ k) (g v) (l.map fun e => (φ e.1, g e.2)) =
        (place k v l).map fun e => (φ e.1, g e.2) := by
    intro l
    induction l with
    | nil => rfl
    | cons e l ih =>
      obtain ⟨key, value⟩ := e
      -- the place is found by comparing keys, and the comparisons come out the same
      simp only [List.map_cons, place, φ.lt_iff_lt, φ.injective.eq_iff, ih]
      split_ifs <;> rfl
  exact ext_entries (hplace t.entries)

/-- Filtering by what does not depend on the numbers can be done before or after they change. -/
lemma filter_renumber (keep : Nat → α → Bool) {keep' : Nat → β → Bool}
    (h : ∀ k v, keep' (φ k) (g v) = keep k v) (t : Table α) :
    (t.renumber φ g).filter keep' = (t.filter keep).renumber φ g := by
  apply ext_entries
  show (t.entries.map fun e => (φ e.1, g e.2)).filter (fun e => keep' e.1 e.2) =
    (t.entries.filter fun e => keep e.1 e.2).map fun e => (φ e.1, g e.2)
  rw [List.filter_map]
  congr 1
  exact List.filter_congr fun e _ => h e.1 e.2

lemma erase_renumber (t : Table α) (k : Nat) :
    (t.renumber φ g).erase (φ k) = (t.erase k).renumber φ g := by
  refine filter_renumber (fun key _ => key != k) (fun key v => ?_) t
  rw [bne, bne, Bool.beq_eq_decide_eq, Bool.beq_eq_decide_eq]
  simp only [φ.injective.eq_iff]

/-- Adjusting under the new number is adjusting under the old one, if the values are adjusted alike.
-/
lemma adjust_renumber (f : α → α) (f' : β → β) (h : ∀ v, f' (g v) = g (f v)) (t : Table α)
    (k : Nat) : (t.renumber φ g).adjust (φ k) f' = (t.adjust k f).renumber φ g := by
  apply ext_entries
  show ((t.entries.map fun e => (φ e.1, g e.2)).map
      fun e => if e.1 = φ k then (e.1, f' e.2) else e) =
    (t.entries.map fun e => if e.1 = k then (e.1, f e.2) else e).map fun e => (φ e.1, g e.2)
  rw [List.map_map, List.map_map]
  refine List.map_congr_left fun e _ => ?_
  simp only [Function.comp_apply, φ.injective.eq_iff]
  split_ifs
  · rw [h]
  · rfl

/-- Numbers that stay as they are. -/
lemma renumber_of_below {n : Nat} {φ : Nat ↪o Nat} {g : α → α} (h : t.Below n)
    (hφ : ∀ k, k < n → φ k = k) (hg : ∀ k v, t.get? k = some v → g v = v) : t.renumber φ g = t := by
  apply ext_entries
  show t.entries.map (fun e => (φ e.1, g e.2)) = t.entries
  conv_rhs => rw [← List.map_id t.entries]
  refine List.map_congr_left fun e he => ?_
  have hget : t.get? e.1 = some e.2 := mem_entries_iff.1 he
  rw [hφ _ (h _ _ hget), hg _ _ hget]
  rfl

end Table

/-! ## Editors -/

section Values

variable (φ : Nat ↪o Nat)

def MarkerChange.renumber (c : MarkerChange) : MarkerChange := { c with marker := φ c.marker }

def Decoration.renumber (d : Decoration) : Decoration := { d with marker := φ d.marker }

def PartialFold.renumber (p : PartialFold) : PartialFold := ⟨φ p.marker, p.folds.map φ⟩

def Label.renumber (l : Label) : Label :=
  { l with marker := φ l.marker, decoration := l.decoration.map φ }

def Folding.renumber (f : Folding) : Folding :=
  { f with marker := φ f.marker, folds := f.folds.renumber φ, label := f.label.renumber φ }

/-- The editor with other numbers in the same order. -/
def Editor.renumber (e : Editor) : Editor :=
  { e with
    folds := e.folds.renumber φ id
    markers := e.markers.renumber φ id
    decorations := e.decorations.renumber φ (Decoration.renumber φ)
    markerChanges := e.markerChanges.map (MarkerChange.renumber φ)
    nextId := φ e.nextId }

end Values

namespace MarkerChange

variable {φ : Nat ↪o Nat}

/-- A notification is entered in the same way under new numbers. -/
lemma enqueue_renumber (queue : List MarkerChange) (c : MarkerChange) :
    enqueue (queue.map (renumber φ)) (c.renumber φ) = (enqueue queue c).map (renumber φ) := by
  have hmarker : ∀ d : MarkerChange, (d.renumber φ).marker = (c.renumber φ).marker ↔
      d.marker = c.marker := fun d => φ.injective.eq_iff
  have hany : (queue.map (renumber φ)).any (·.marker == (c.renumber φ).marker) =
      queue.any (·.marker == c.marker) := by
    rw [List.any_map]
    congr 1
    funext d
    simp only [Function.comp_apply, Bool.beq_eq_decide_eq, hmarker]
  rw [enqueue, enqueue, hany]
  split_ifs
  · rw [List.map_map, List.map_map]
    refine List.map_congr_left fun d _ => ?_
    simp only [Function.comp_apply, hmarker]
    split_ifs <;> rfl
  · rw [List.map_append]
    rfl

lemma foldl_enqueue_renumber (changes queue : List MarkerChange) :
    (changes.map (renumber φ)).foldl enqueue (queue.map (renumber φ)) =
      (changes.foldl enqueue queue).map (renumber φ) := by
  induction changes generalizing queue with
  | nil => rfl
  | cons c changes ih => rw [List.map_cons, List.foldl_cons, List.foldl_cons, enqueue_renumber, ih]

end MarkerChange

namespace Editor

variable {φ : Nat ↪o Nat} {e : Editor}

/-! ### Views -/

@[simp] lemma values_folds_renumber (e : Editor) :
    (e.renumber φ).folds.values = e.folds.values := by
  simp [renumber]

@[simp] lemma text_renumber (e : Editor) : (e.renumber φ).text = e.text := rfl

@[simp] lemma settings_renumber (e : Editor) : (e.renumber φ).settings = e.settings := rfl

@[simp] lemma cursor_renumber (e : Editor) : (e.renumber φ).cursor = e.cursor := rfl

@[simp] lemma nextId_renumber (e : Editor) : (e.renumber φ).nextId = φ e.nextId := rfl

@[simp] lemma get?_markers_renumber (e : Editor) (k : MarkerId) :
    (e.renumber φ).markers.get? (φ k) = e.markers.get? k := by
  simp [renumber]

/-- Where something is drawn does not depend on the numbers. -/
lemma screenPoint_renumber (e : Editor) : (e.renumber φ).screenPoint = e.screenPoint := by
  funext p
  rw [screenPoint, screenPoint, values_folds_renumber, text_renumber]

lemma screenRange_renumber (e : Editor) : (e.renumber φ).screenRange = e.screenRange := by
  funext r
  rw [screenRange, screenRange, values_folds_renumber, text_renumber]

lemma clipRange_renumber (e : Editor) : (e.renumber φ).clipRange = e.clipRange := rfl

/-- The fold ranges do not depend on the numbers. -/
lemma foldRanges_renumber (e : Editor) : (e.renumber φ).foldRanges = e.foldRanges := by
  rw [foldRanges, foldRanges, values_folds_renumber]

@[simp] lemma markerRange?_renumber (e : Editor) (k : MarkerId) :
    (e.renumber φ).markerRange? (φ k) = e.markerRange? k := by
  rw [markerRange?, markerRange?, get?_markers_renumber]

@[simp] lemma markerScreenRange?_renumber (e : Editor) (k : MarkerId) :
    (e.renumber φ).markerScreenRange? (φ k) = e.markerScreenRange? k := by
  rw [markerScreenRange?, markerScreenRange?, markerRange?_renumber, screenRange_renumber]

/-- Whether something is queued does not depend on the numbers. -/
lemma hasPending_renumber (e : Editor) : (e.renumber φ).hasPending = e.hasPending := by
  simp [hasPending, renumber]

/-- What is drawn is the same, apart from the number of the marker. -/
lemma overlays_renumber (e : Editor) : (e.renumber φ).overlays =
    e.overlays.map fun v => { v with marker := φ v.marker } := by
  have hone : ∀ d : Decoration, (e.renumber φ).overlayOf? (d.renumber φ) =
      (e.overlayOf? d).map fun v => { v with marker := φ v.marker } := by
    intro d
    rw [overlayOf?, overlayOf?, screenPoint_renumber]
    show ((e.renumber φ).markers.get? (φ d.marker)).map _ = _
    rw [get?_markers_renumber, Option.map_map]
    rfl
  rw [overlays, overlays]
  show ((e.decorations.renumber φ (Decoration.renumber φ)).values).filterMap _ = _
  rw [Table.values_renumber, List.filterMap_map, List.map_filterMap]
  congr 1
  funext d
  exact hone d

/-! ### Notifications -/

/-- A change under new numbers causes the same notifications, under new numbers. -/
lemma changesSince_renumber (before after : Editor) :
    changesSince (before.renumber φ) (after.renumber φ) =
      (changesSince before after).map (MarkerChange.renumber φ) := by
  have hone : ∀ k m, changeOf? (before.renumber φ) (after.renumber φ) (φ k) m =
      (changeOf? before after k m).map (MarkerChange.renumber φ) := by
    intro k m
    rw [changeOf?, changeOf?, get?_markers_renumber, screenRange_renumber, screenRange_renumber]
    cases after.markers.get? k with
    | none => rfl
    | some m' =>
      -- both extents are places on the screen, where no number is seen
      dsimp only
      split_ifs <;> rfl
  rw [changesSince, changesSince]
  show (before.markers.entries.map fun e => (φ e.1, id e.2)).filterMap _ = _
  rw [List.filterMap_map, List.map_filterMap]
  congr 1
  funext entry
  simp only [Function.comp_apply, id]
  split_ifs
  · exact hone _ _
  · rfl

/-- A change under new numbers moves the cursor in the same way. -/
lemma cursorMoveSince_renumber (before after : Editor) :
    cursorMoveSince (before.renumber φ) (after.renumber φ) = cursorMoveSince before after := by
  rw [cursorMoveSince, cursorMoveSince, screenPoint_renumber, screenPoint_renumber]
  rfl

/-- A tracked change that renumbering goes through. -/
lemma track_renumber {change change' : Editor → Editor}
    (h : change' (e.renumber φ) = (change e).renumber φ) :
    track change' (e.renumber φ) = (track change e).renumber φ := by
  unfold track
  dsimp only
  rw [h, changesSince_renumber, cursorMoveSince_renumber]
  show ({ (change e).renumber φ with
    markerChanges := _, cursorMoves := _ } : Editor) = _
  rw [show ((change e).renumber φ).markerChanges =
    (change e).markerChanges.map (MarkerChange.renumber φ) from rfl,
    MarkerChange.foldl_enqueue_renumber]
  rfl

/-! ### Operations -/

/-- A new marker gets the new number of the next one. -/
lemma createMarker_renumber (hnext : φ (e.nextId + 1) = φ e.nextId + 1) (r : Range) :
    (e.renumber φ).createMarker r = (φ e.nextId, (e.createMarker r).2.renumber φ) := by
  have hinsert := Table.insert_renumber (φ := φ) (g := id) e.markers e.nextId
    ⟨e.clipRange r, true⟩
  unfold createMarker renumber
  dsimp only
  rw [hnext, ← hinsert]
  rfl

/-- A new fold gets the new number of the next one. -/
lemma fold_renumber (hnext : φ (e.nextId + 1) = φ e.nextId + 1) (r : Range) :
    (e.renumber φ).fold r = (φ e.nextId, (e.fold r).2.renumber φ) := by
  have hstart : ({ e.renumber φ with nextId := φ e.nextId + 1 } : Editor) =
      ({ e with nextId := e.nextId + 1 } : Editor).renumber φ := by
    rw [renumber, renumber, hnext]
  have hinsert := Table.insert_renumber (φ := φ) (g := id) e.folds e.nextId (e.clipRange r)
  unfold fold
  dsimp only
  -- the number is taken before the change that is tracked
  rw [nextId_renumber, hstart, clipRange_renumber]
  refine congrArg _ (track_renumber ?_)
  unfold renumber
  dsimp only
  rw [← hinsert]
  rfl

lemma destroyFold_renumber (e : Editor) (id : FoldId) :
    (e.renumber φ).destroyFold (φ id) = (e.destroyFold id).renumber φ := by
  have hcontains : (e.renumber φ).folds.contains (φ id) = e.folds.contains id :=
    Table.contains_renumber ..
  rw [destroyFold, destroyFold, hcontains]
  split_ifs
  · refine track_renumber ?_
    unfold renumber
    dsimp only
    rw [Table.erase_renumber]
  · rfl

/-- Destroying a marker under its new number takes the same decorations and notifications with it.
-/
lemma destroyMarker_renumber (e : Editor) (id : MarkerId) :
    (e.renumber φ).destroyMarker (φ id) = (e.destroyMarker id).renumber φ := by
  have hne : ∀ k : Nat, (φ k != φ id) = (k != id) := by
    intro k
    rw [bne, bne, Bool.beq_eq_decide_eq, Bool.beq_eq_decide_eq]
    simp only [φ.injective.eq_iff]
  unfold destroyMarker renumber
  dsimp only
  rw [Table.erase_renumber, List.filter_map,
    Table.filter_renumber (fun _ d => d.marker != id) fun _ d => hne d.marker]
  congr 2
  exact List.filter_congr fun c _ => hne c.marker

/-- A new decoration gets the new number of the next one. -/
lemma decorate_renumber (hnext : φ (e.nextId + 1) = φ e.nextId + 1) (marker : MarkerId)
    (overlay : Overlay) :
    (e.renumber φ).decorate (φ marker) overlay =
      (φ e.nextId, (e.decorate marker overlay).2.renumber φ) := by
  have hinsert := Table.insert_renumber (φ := φ) (g := Decoration.renumber φ) e.decorations e.nextId
    ⟨marker, overlay⟩
  unfold decorate renumber
  dsimp only
  rw [hnext, ← hinsert]
  rfl

lemma setStyle_renumber (e : Editor) (id : DecorationId) (style : String) :
    (e.renumber φ).setStyle (φ id) style = (e.setStyle id style).renumber φ := by
  have hadjust := Table.adjust_renumber (φ := φ) (g := Decoration.renumber φ)
    (fun d => { d with overlay := { d.overlay with style } })
    (fun d => { d with overlay := { d.overlay with style } }) (fun _ => rfl) e.decorations id
  unfold setStyle renumber
  dsimp only
  rw [← hadjust]

lemma destroyDecoration_renumber (e : Editor) (id : DecorationId) :
    (e.renumber φ).destroyDecoration (φ id) = (e.destroyDecoration id).renumber φ := by
  unfold destroyDecoration renumber
  dsimp only
  rw [Table.erase_renumber]

end Editor

/-! ## Foldings -/

/-- From `n` on numbers are handed out in step. -/
def Steady (φ : Nat ↪o Nat) (n : Nat) : Prop :=
  ∀ k, n ≤ k → φ (k + 1) = φ k + 1

section Parts

variable {φ : Nat ↪o Nat} {e : Editor} {n : Nat}

lemma Label.draw_renumber (hφ : Steady φ n) (hn : n ≤ e.nextId) (l : Label) :
    (l.renumber φ).draw (e.renumber φ) = ((l.draw e).1.renumber φ, (l.draw e).2.renumber φ) := by
  obtain ⟨marker, text, style, decoration⟩ := l
  cases decoration with
  | some d => rfl
  | none =>
    have hdecorate := Editor.decorate_renumber (hφ _ hn) marker ⟨text, style.name⟩
    unfold Label.draw Label.renumber
    dsimp only [Option.map_none]
    rw [hdecorate]
    rfl

lemma Label.hide_renumber (l : Label) :
    (l.renumber φ).hide (e.renumber φ) = ((l.hide e).1.renumber φ, (l.hide e).2.renumber φ) := by
  obtain ⟨marker, text, style, decoration⟩ := l
  cases decoration with
  | some d =>
    unfold Label.hide Label.renumber
    dsimp only [Option.map_some]
    rw [Editor.destroyDecoration_renumber]
    rfl
  | none => rfl

lemma Label.setStyle_renumber (l : Label) (style : LabelStyle) :
    (l.renumber φ).setStyle (e.renumber φ) style =
      ((l.setStyle e style).1.renumber φ, (l.setStyle e style).2.renumber φ) := by
  obtain ⟨marker, text, oldStyle, decoration⟩ := l
  cases decoration with
  | some d =>
    unfold Label.setStyle Label.renumber
    dsimp only [Option.map_some]
    rw [Editor.setStyle_renumber]
  | none => rfl

namespace PartialFold

/-- Folds that are made one after the other get the new numbers of the next ones. -/
lemma foldEach_renumber (hφ : Steady φ n) (hn : n ≤ e.nextId) (ranges : List Range) :
    foldEach (e.renumber φ) ranges =
      ((foldEach e ranges).1.map φ, (foldEach e ranges).2.renumber φ) := by
  induction ranges generalizing e with
  | nil => rfl
  | cons r ranges ih =>
    have hrest := ih (e := (e.fold r).2) (Nat.le_succ_of_le hn)
    unfold foldEach
    rw [Editor.fold_renumber (hφ _ hn)]
    dsimp only
    rw [hrest]
    rfl

lemma destroy_renumber (p : PartialFold) (e : Editor) :
    (p.renumber φ).destroy (e.renumber φ) = (p.destroy e).renumber φ := by
  unfold destroy renumber
  dsimp only
  generalize p.folds = ids
  induction ids generalizing e with
  | nil => rfl
  | cons id ids ih =>
    rw [List.map_cons, List.foldl_cons, List.foldl_cons, Editor.destroyFold_renumber, ih]

/-- Whether a range can be folded does not depend on the numbers. -/
lemma check_renumber (r : Range) (width : Nat) (maxLineLength : Option Nat) :
    check (e.renumber φ) r width maxLineLength = check e r width maxLineLength := by
  unfold check
  rw [Editor.screenPoint_renumber]
  rfl

/-- A partial fold over a marker that exists. -/
lemma create_renumber (hφ : Steady φ n) (hn : n ≤ e.nextId) {marker : MarkerId} {r : Range}
    (hr : e.markerRange? marker = some r) (width : Nat) :
    create (e.renumber φ) (φ marker) width =
      (create e marker width).map fun made => (made.1.renumber φ, made.2.renumber φ) := by
  unfold create
  rw [Editor.markerRange?_renumber, hr, Editor.settings_renumber]
  split
  · rfl
  · have hread : (e.renumber φ).read r = e.read r := rfl
    simp only [bind, Except.bind, hread]
    cases e.read r with
    | error fault => rfl
    | ok text =>
      dsimp only
      split
      · rfl
      · rw [Editor.text_renumber, foldEach_renumber hφ hn]
        rfl

end PartialFold

end Parts

end TemplateFolding
