import TemplateFolding.Editor.Basic

/-!
# Highlighting under the cursor

A move of the cursor can only change the highlighting of foldings that start on the screen row it
leaves or enters, so the visible foldings are indexed by the row of their start. The index keeps
two tables: the foldings of each row, and the row of each folding.

Highlighting can be suspended. A suspension remembers whether highlighting was on when it began,
and its end restores that.
-/

namespace TemplateFolding

/-- The number of a folding. -/
abbrev FoldingId := Nat

/-- Foldings by screen row. -/
structure RowIndex where
  /-- The foldings on each row that has some. -/
  rows : Table (Table Unit)
  /-- The row of each folding. -/
  rowOf : Table Nat

namespace RowIndex

/-- The index without foldings. -/
def empty : RowIndex := ⟨.empty, .empty⟩

/-- Takes a folding out of the index. -/
def remove (ix : RowIndex) (id : FoldingId) : RowIndex :=
  match ix.rowOf.get? id with
  | none => ix
  | some row =>
    let rows :=
      match ix.rows.get? row with
      | none => ix.rows
      | some ids =>
        let ids := ids.erase id
        if ids.entries.isEmpty then ix.rows.erase row else ix.rows.insert row ids
    ⟨rows, ix.rowOf.erase id⟩

/-- Puts a folding on a row, and takes it off the row it was on. -/
def insert (ix : RowIndex) (id : FoldingId) (row : Nat) : RowIndex :=
  let ix := ix.remove id
  let ids := ((ix.rows.get? row).getD .empty).insert id ()
  ⟨ix.rows.insert row ids, ix.rowOf.insert id row⟩

/-- Takes all foldings out of the index. -/
def clear (_ : RowIndex) : RowIndex := empty

/-- The foldings on a row in ascending order. -/
def onRow (ix : RowIndex) (row : Nat) : List FoldingId :=
  ((ix.rows.get? row).getD .empty).keys

end RowIndex

/-- A change of highlighting that a move of the cursor asks for. -/
inductive HighlightChange where
  | add (id : FoldingId)
  | remove (id : FoldingId)
deriving DecidableEq

/-- The visible foldings by row, and whether moves of the cursor are heeded. -/
structure Highlighter where
  index : RowIndex := .empty
  enabled : Bool := true

/-- What the end of a suspension restores. -/
structure Suspension where
  wasEnabled : Bool
deriving DecidableEq

namespace Highlighter

/-- Tracks a visible folding that starts on a row. -/
def manage (h : Highlighter) (id : FoldingId) (row : Nat) : Highlighter :=
  { h with index := h.index.insert id row }

/-- Stops tracking a folding. -/
def forget (h : Highlighter) (id : FoldingId) : Highlighter :=
  { h with index := h.index.remove id }

/-- Stops tracking all foldings. -/
def forgetAll (h : Highlighter) : Highlighter :=
  { h with index := h.index.clear }

/-- Ignores moves of the cursor until the suspension ends. -/
def suspend (h : Highlighter) : Suspension × Highlighter :=
  (⟨h.enabled⟩, { h with enabled := false })

/-- Ends a suspension. -/
def resume (h : Highlighter) (s : Suspension) : Highlighter :=
  { h with enabled := s.wasEnabled }

/-- Whether a range is left by a move of the cursor. -/
def leaves (m : CursorMove) (r : Range) : Bool :=
  r.contains m.old && !r.contains m.new

/-- Whether a range is entered by a move of the cursor. -/
def enters (m : CursorMove) (r : Range) : Bool :=
  !r.contains m.old && r.contains m.new

/-- The changes that a move of the cursor asks for, given the buffer ranges of the foldings. -/
def onCursorMove (h : Highlighter) (m : CursorMove) (rangeOf : FoldingId → Option Range) :
    List HighlightChange :=
  if h.enabled then
    ((h.index.onRow m.oldScreen.row).filter fun id => (rangeOf id).any (leaves m)).map .remove ++
      ((h.index.onRow m.newScreen.row).filter fun id => (rangeOf id).any (enters m)).map .add
  else []

end Highlighter

end TemplateFolding
