import TemplateFolding.Text.Basic
import TemplateFolding.Text.Point

/-!
# Rows and columns of a text

A line feed ends a row, and a carriage return just before it belongs to the line ending, so no
column stands between the two. Every other character, a lone carriage return included, takes one
column.

A point is brought into the text by `clip`, which always succeeds. `slice?` reads the text between
two points and refuses a range whose clipped start lies after its clipped end.
-/

namespace TemplateFolding.Text

/-- The number of the last row. -/
def lastRow (t : Text) : Nat :=
  t.count '\n'

/-- The text from the start of a row on; nothing when there is no such row. -/
def fromRow : Nat → Text → Text
  | 0, t => t
  | _ + 1, [] => []
  | row + 1, c :: cs => if c = '\n' then fromRow row cs else fromRow (row + 1) cs

/-- The number of characters before the first line ending. -/
def firstLineLength : Text → Nat
  | [] => 0
  | '\n' :: _ => 0
  | '\r' :: '\n' :: _ => 0
  | _ :: cs => firstLineLength cs + 1

/-- The number of characters on a row, its line ending excluded. -/
def lineLength (t : Text) (row : Nat) : Nat :=
  firstLineLength (fromRow row t)

/-- The nearest position on the rows of the text: the row is limited first, then the column. -/
def clip (t : Text) (p : Point) : Point :=
  let row := min p.row (lastRow t)
  ⟨row, min p.column (lineLength t row)⟩

/-- The position after the last character of a row. -/
def lineEnd (t : Text) (row : Nat) : Point :=
  let row := min row (lastRow t)
  ⟨row, lineLength t row⟩

/-- From the origin to the end of the last row. -/
def fullRange (t : Text) : Range :=
  ⟨.origin, t.lineEnd t.lastRow⟩

/-- The number of characters before a row. -/
def rowStart : Nat → Text → Nat
  | 0, _ => 0
  | _ + 1, [] => 0
  | row + 1, c :: cs => (if c = '\n' then rowStart row cs else rowStart (row + 1) cs) + 1

/-- The number of characters before a position, which is clipped first. -/
def offset (t : Text) (p : Point) : Nat :=
  let q := t.clip p
  rowStart q.row t + q.column

/-- The text between two positions, line endings kept; nothing when they are out of order. -/
def slice (t : Text) (r : Range) : Text :=
  (t.drop (t.offset r.start)).take (t.offset r.stop - t.offset r.start)

/-- The text between two positions, refused when the clipped start lies after the clipped stop. -/
def slice? (t : Text) (r : Range) : Option Text :=
  if t.offset r.start ≤ t.offset r.stop then some (t.slice r) else none

/-- The text with what stands between two positions replaced. -/
def splice (t : Text) (r : Range) (inserted : Text) : Text :=
  t.take (t.offset r.start) ++ inserted ++ t.drop (t.offset r.stop)

/-- The next position: one column on, or the start of the next row at the end of a row. The end
of the text is its own successor. -/
def next (t : Text) (p : Point) : Point :=
  if p.column < t.lineLength p.row then ⟨p.row, p.column + 1⟩
  else if p.row < t.lastRow then ⟨p.row + 1, 0⟩
  else p

/-- The position `n` steps on; a line ending is one step, and there is no step past the end. -/
def advance (t : Text) (p : Point) : Nat → Point
  | 0 => p
  | n + 1 => if t.next p = p then p else advance t (t.next p) n

/-- The number of steps it takes to cross the text: a carriage return and the line feed after it
are crossed together. -/
def visualLength : Text → Nat
  | [] => 0
  | '\r' :: '\n' :: cs => visualLength cs + 1
  | _ :: cs => visualLength cs + 1

/-- The position reached by writing the text from `p` on. -/
def pointAfter (p : Point) : Text → Point
  | [] => p
  | c :: cs => if c = '\n' then pointAfter ⟨p.row + 1, 0⟩ cs else pointAfter ⟨p.row, p.column + 1⟩ cs

/-- The number of lines, where a final line feed starts no further line. -/
def lineCount (t : Text) : Nat :=
  match t.getLast? with
  | none => 0
  | some c => if c = '\n' then t.lastRow else t.lastRow + 1

end TemplateFolding.Text
