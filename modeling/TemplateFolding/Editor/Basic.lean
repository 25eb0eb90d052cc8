import TemplateFolding.Editor.Edit
import TemplateFolding.Editor.Screen
import TemplateFolding.Settings
import TemplateFolding.Table

/-!
# An editor with folds, markers and overlays

The editor holds a text and a cursor, folds that collapse ranges of it, markers that track ranges
through edits, and decorations that draw overlays at the start of markers. Folds, markers and
decorations take their numbers from one counter.

A change of the text, the cursor or the folds is made by `track`, which queues a notification for
every valid marker that it moves or invalidates and for the cursor if it moves. Notifications speak
of screen positions, so folding alone can cause them. Those of one marker that have not been drained
are one notification.
-/

namespace TemplateFolding

open Text

/-- The number of a fold. -/
abbrev FoldId := Nat

/-- The number of a marker. -/
abbrev MarkerId := Nat

/-- The number of a decoration. -/
abbrev DecorationId := Nat

/-- A tracked range. Once text inside it has changed it is not valid and no longer tracked. -/
structure Marker where
  range : Range
  valid : Bool
deriving DecidableEq

/-- Text drawn over the screen, with the name of its style. -/
structure Overlay where
  text : Text
  style : String
deriving DecidableEq

/-- An overlay at the start of a marker. -/
structure Decoration where
  marker : MarkerId
  overlay : Overlay
deriving DecidableEq

/-- The screen extents of a marker before and after a change, and what became of it. -/
structure MarkerChange where
  marker : MarkerId
  old : Range
  new : Range
  valid : Bool
  textChanged : Bool
deriving DecidableEq

/-- A move of the cursor, in the buffer and on the screen. -/
structure CursorMove where
  old : Point
  new : Point
  oldScreen : Point
  newScreen : Point
deriving DecidableEq

/-- The state of an editor. -/
structure Editor where
  text : Text
  settings : Settings := {}
  cursor : Point := .origin
  folds : Table Range := .empty
  markers : Table Marker := .empty
  decorations : Table Decoration := .empty
  markerChanges : List MarkerChange := []
  cursorMoves : List CursorMove := []
  nextId : Nat := 1

/-- What an edit makes of a marker: text changed inside it ends its validity. A marker that is not
valid stays as it is. -/
def Marker.afterEdit (edit : Edit) (m : Marker) : Marker :=
  if m.valid then ⟨edit.mapRange m.range, !edit.hitsInside m.range⟩ else m

/-- Two notifications of one marker as one. -/
def MarkerChange.followedBy (c d : MarkerChange) : MarkerChange :=
  { c with new := d.new, valid := c.valid && d.valid, textChanged := c.textChanged || d.textChanged }

/-- Queues a notification; a pending one of the same marker takes it up. -/
def MarkerChange.enqueue (queue : List MarkerChange) (c : MarkerChange) : List MarkerChange :=
  if queue.any (·.marker == c.marker) then
    queue.map fun pending => if pending.marker = c.marker then pending.followedBy c else pending
  else
    queue ++ [c]

namespace Editor

/-! ## Views -/

/-- The fold ranges ordered by start and stop. -/
def foldRanges (e : Editor) : List Range :=
  Range.sort e.folds.values

/-- Where a buffer position is drawn. -/
def screenPoint (e : Editor) (p : Point) : Point :=
  TemplateFolding.screenPoint e.text e.folds.values p

/-- Where the ends of a range are drawn. -/
def screenRange (e : Editor) (r : Range) : Range :=
  TemplateFolding.screenRange e.text e.folds.values r

/-- The buffer as displayed, line by line. -/
def screenLines (e : Editor) : List Text :=
  TemplateFolding.screenLines e.text e.folds.values

/-- The range of a marker. -/
def markerRange? (e : Editor) (id : MarkerId) : Option Range :=
  (e.markers.get? id).map (·.range)

/-- The screen extent of a marker. -/
def markerScreenRange? (e : Editor) (id : MarkerId) : Option Range :=
  (e.markerRange? id).map e.screenRange

/-- Whether notifications are queued. -/
def hasPending (e : Editor) : Bool :=
  !e.markerChanges.isEmpty || !e.cursorMoves.isEmpty

/-! ## Notifications -/

/-- The notification due for a marker that was `m` before the change, if there is one. -/
def changeOf? (before after : Editor) (id : MarkerId) (m : Marker) : Option MarkerChange :=
  match after.markers.get? id with
  | none => none
  | some m' =>
    let old := before.screenRange m.range
    let new := after.screenRange m'.range
    if m'.valid ∧ m'.range = m.range ∧ new = old then none
    else some { marker := id, old, new, valid := m'.valid, textChanged := !m'.valid }

/-- The notifications due for the markers that were valid before the change. -/
def changesSince (before after : Editor) : List MarkerChange :=
  before.markers.entries.filterMap fun (id, m) => if m.valid then changeOf? before after id m else none

/-- The move of the cursor, if it moved in the buffer or on the screen. -/
def cursorMoveSince (before after : Editor) : Option CursorMove :=
  let oldScreen := before.screenPoint before.cursor
  let newScreen := after.screenPoint after.cursor
  if after.cursor = before.cursor ∧ newScreen = oldScreen then none
  else some { old := before.cursor, new := after.cursor, oldScreen, newScreen }

/-- Makes a change and queues the notifications it causes. -/
def track (change : Editor → Editor) (e : Editor) : Editor :=
  let after := change e
  { after with
    markerChanges := (changesSince e after).foldl MarkerChange.enqueue after.markerChanges
    cursorMoves := after.cursorMoves ++ (cursorMoveSince e after).toList }

/-- Takes the notifications of markers out of the queue. -/
def drainMarkerChanges (e : Editor) : List MarkerChange × Editor :=
  (e.markerChanges, { e with markerChanges := [] })

/-- Takes the moves of the cursor out of the queue. -/
def drainCursorMoves (e : Editor) : List CursorMove × Editor :=
  (e.cursorMoves, { e with cursorMoves := [] })

/-! ## Text and cursor -/

/-- A range with its ends clipped to the text and put in order. -/
def clipRange (e : Editor) (r : Range) : Range :=
  .between (e.text.clip r.start) (e.text.clip r.stop)

/-- Replaces the text of a range, and moves with it what is tracked: a fold with changed text inside
is removed, a marker with changed text inside is no longer valid. -/
def splice (e : Editor) (edit : Edit) (inserted : Text) : Editor :=
  { e with
    text := e.text.splice ⟨edit.start, edit.oldStop⟩ inserted
    markers := e.markers.map fun m => m.afterEdit edit
    folds := (e.folds.filter fun _ fold => !edit.hitsInside fold).map edit.mapRange
    cursor := edit.mapCursor e.cursor }

/-- Replaces the text of a range; the result says where the new text stands. -/
def replace (e : Editor) (r : Range) (inserted : Text) : Range × Editor :=
  let r := e.clipRange r
  let stop := pointAfter r.start inserted
  (⟨r.start, stop⟩, e.track (·.splice ⟨r.start, r.stop, stop⟩ inserted))

/-- Inserts text at a position. -/
def insert (e : Editor) (p : Point) (inserted : Text) : Range × Editor :=
  e.replace ⟨p, p⟩ inserted

/-- Moves the cursor to a position, clipped to the text. -/
def setCursor (e : Editor) (p : Point) : Editor :=
  e.track fun e => { e with cursor := e.text.clip p }

/-! ## Folds -/

/-- Collapses a range. -/
def fold (e : Editor) (r : Range) : FoldId × Editor :=
  let r := e.clipRange r
  let id := e.nextId
  (id, track (fun e => { e with folds := e.folds.insert id r }) { e with nextId := id + 1 })

/-- Removes a fold; one that is not there is no matter. -/
def destroyFold (e : Editor) (id : FoldId) : Editor :=
  if e.folds.contains id then e.track fun e => { e with folds := e.folds.erase id } else e

/-- Whether a fold hides something of a row: one that stops at the start of the row does not. -/
def touchesRow (row : Nat) (fold : Range) : Bool :=
  fold.start.row == row ||
    decide (fold.start.row < row ∧ (row < fold.stop.row ∨ row = fold.stop.row ∧ 0 < fold.stop.column))

/-- Removes every fold that touches a row. -/
def unfoldRow (e : Editor) (row : Nat) : Editor :=
  e.track fun e => { e with folds := e.folds.filter fun _ fold => !touchesRow row fold }

/-! ## Markers -/

/-- Starts to track a range. -/
def createMarker (e : Editor) (r : Range) : MarkerId × Editor :=
  let id := e.nextId
  (id, { e with nextId := id + 1, markers := e.markers.insert id ⟨e.clipRange r, true⟩ })

/-- Stops tracking a range. The decorations of the marker and its pending notification go too. -/
def destroyMarker (e : Editor) (id : MarkerId) : Editor :=
  { e with
    markers := e.markers.erase id
    decorations := e.decorations.filter fun _ d => d.marker != id
    markerChanges := e.markerChanges.filter (·.marker != id) }

/-! ## Decorations -/

/-- Draws an overlay at the start of a marker. -/
def decorate (e : Editor) (marker : MarkerId) (overlay : Overlay) : DecorationId × Editor :=
  let id := e.nextId
  (id, { e with nextId := id + 1, decorations := e.decorations.insert id ⟨marker, overlay⟩ })

/-- Changes the style of a decoration. -/
def setStyle (e : Editor) (id : DecorationId) (style : String) : Editor :=
  { e with decorations := e.decorations.adjust id fun d => { d with overlay := { d.overlay with style } } }

/-- Removes a decoration. -/
def destroyDecoration (e : Editor) (id : DecorationId) : Editor :=
  { e with decorations := e.decorations.erase id }

/-- Switches atomic soft tabs. -/
def setAtomicSoftTabs (e : Editor) (on : Bool) : Editor :=
  { e with settings := { e.settings with atomicSoftTabs := on } }

end Editor

end TemplateFolding
