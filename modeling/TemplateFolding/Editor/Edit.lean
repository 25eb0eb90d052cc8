import TemplateFolding.Text.Point

/-!
# Replacements and the positions they move

A replacement of the text between two positions moves what stands after it. The ends of a tracked
range are exclusive: text inserted at its start pushes the range, and text inserted at its end
stays outside of it.
-/

namespace TemplateFolding

/-- The text from `start` to `oldStop` is replaced by text that ends at `newStop`. -/
structure Edit where
  start : Point
  oldStop : Point
  newStop : Point
deriving DecidableEq

namespace Edit

/-- Where a position at or after the replaced text goes. -/
def shift (e : Edit) (p : Point) : Point :=
  if p.row = e.oldStop.row then ⟨e.newStop.row, e.newStop.column + (p.column - e.oldStop.column)⟩
  else ⟨p.row - e.oldStop.row + e.newStop.row, p.column⟩

/-- Whether the edit changes text strictly inside a range. -/
def hitsInside (e : Edit) (r : Range) : Bool :=
  decide (e.start < r.stop ∧ r.start < e.oldStop)

/-- Where a tracked range goes. -/
def mapRange (e : Edit) (r : Range) : Range :=
  if e.oldStop ≤ r.start then ⟨e.shift r.start, e.shift r.stop⟩
  else if r.stop ≤ e.start then r
  else
    .between (if r.start ≤ e.start then r.start else e.newStop)
      (if e.oldStop ≤ r.stop then e.shift r.stop else e.newStop)

/-- Where the cursor goes: to the end of the new text if it stood in the replaced text. -/
def mapCursor (e : Edit) (p : Point) : Point :=
  if p < e.start then p
  else if e.oldStop ≤ p then e.shift p
  else e.newStop

end Edit

end TemplateFolding
