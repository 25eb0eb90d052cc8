import TemplateFolding.Text.Rows

/-!
# Folds on the screen

A fold collapses a range of the buffer to one placeholder character. Folds that overlap are drawn
as one, folds that only touch stay apart, and an empty fold is not drawn.

Two functions describe the result: `screenPoint` maps a buffer position to the screen, and
`screenLines` gives the lines as displayed.
-/

namespace TemplateFolding

open Text

/-- The character drawn in place of a collapsed fold. -/
def foldPlaceholder : Char := '⋯'

namespace Range

/-- Whether `r` stands before `s` or at the same place: by start, then by stop. -/
def precedes (r s : Range) : Bool :=
  decide (r.start < s.start ∨ r.start = s.start ∧ r.stop ≤ s.stop)

/-- Puts a range in its place among ranges ordered by start and stop. -/
def place (r : Range) : List Range → List Range
  | [] => [r]
  | s :: rest => if r.precedes s then r :: s :: rest else s :: place r rest

/-- The ranges ordered by start and stop. -/
def sort (rs : List Range) : List Range :=
  rs.foldr place []

/-- Merges each range of an ordered list with those after it that start before it stops. -/
def mergeFrom (current : Range) : List Range → List Range
  | [] => [current]
  | r :: rest =>
    if r.start < current.stop then
      mergeFrom ⟨current.start, if current.stop < r.stop then r.stop else current.stop⟩ rest
    else
      current :: mergeFrom r rest

/-- Merges the overlapping ranges of an ordered list. -/
def merge : List Range → List Range
  | [] => []
  | r :: rest => mergeFrom r rest

end Range

/-- The folds as drawn: empty ones dropped, overlapping ones merged, in order. -/
def effectiveFolds (folds : List Range) : List Range :=
  Range.merge ((Range.sort folds).filter (!·.isPoint))

/-! ## Positions -/

/-- The screen position of `target`, given that no fold stands between it and the buffer position
`anchor`, which is at `screen`. -/
def Point.carry (anchor screen target : Point) : Point :=
  if target.row = anchor.row then ⟨screen.row, screen.column + (target.column - anchor.column)⟩
  else ⟨screen.row + (target.row - anchor.row), target.column⟩

/-- The screen position of `p`, reckoned from the buffer position `anchor` at `screen` past the
folds after it. A position inside a fold is drawn at its placeholder. -/
def screenFrom (p anchor screen : Point) : List Range → Point
  | [] => anchor.carry screen p
  | fold :: rest =>
    if p ≤ fold.start then anchor.carry screen p
    else
      let placeholder := anchor.carry screen fold.start
      if p < fold.stop then placeholder
      else screenFrom p fold.stop ⟨placeholder.row, placeholder.column + 1⟩ rest

/-- Where a buffer position is drawn. -/
def screenPoint (t : Text) (folds : List Range) (p : Point) : Point :=
  screenFrom (t.clip p) .origin .origin (effectiveFolds folds)

/-- Where the ends of a range are drawn. -/
def screenRange (t : Text) (folds : List Range) (r : Range) : Range :=
  ⟨screenPoint t folds r.start, screenPoint t folds r.stop⟩

/-! ## Lines -/

/-- The text from `start` on with each of the folds replaced by its placeholder. -/
def foldedFrom (t : Text) (start : Point) : List Range → Text
  | [] => t.slice ⟨start, t.fullRange.stop⟩
  | fold :: rest => t.slice ⟨start, fold.start⟩ ++ foldPlaceholder :: foldedFrom t fold.stop rest

/-- The lines of a text, without their line endings. -/
def Text.lines : Text → List Text
  | [] => [[]]
  | '\n' :: cs => [] :: lines cs
  | '\r' :: '\n' :: cs => [] :: lines cs
  | c :: cs =>
    match lines cs with
    | [] => [[c]]
    | line :: rest => (c :: line) :: rest

/-- The buffer as displayed, line by line. -/
def screenLines (t : Text) (folds : List Range) : List Text :=
  (foldedFrom t .origin (effectiveFolds folds)).lines

end TemplateFolding
