/-!
# Points and ranges

A point is a zero-based row and column, in the buffer or on the screen; points are ordered row
first. A range is a pair of points. `Range.between` puts its two ends in order; a range read off
the screen keeps its ends as they are.
-/

namespace TemplateFolding

/-- A zero-based position; columns count characters. -/
structure Point where
  row : Nat
  column : Nat
deriving DecidableEq, Inhabited

namespace Point

/-- The first position of a text. -/
def origin : Point := ⟨0, 0⟩

instance : LT Point :=
  ⟨fun p q => p.row < q.row ∨ p.row = q.row ∧ p.column < q.column⟩

instance : LE Point :=
  ⟨fun p q => p.row < q.row ∨ p.row = q.row ∧ p.column ≤ q.column⟩

theorem lt_iff {p q : Point} :
    p < q ↔ p.row < q.row ∨ p.row = q.row ∧ p.column < q.column := Iff.rfl

theorem le_iff {p q : Point} :
    p ≤ q ↔ p.row < q.row ∨ p.row = q.row ∧ p.column ≤ q.column := Iff.rfl

instance (p q : Point) : Decidable (p < q) :=
  inferInstanceAs (Decidable (_ ∨ _))

instance (p q : Point) : Decidable (p ≤ q) :=
  inferInstanceAs (Decidable (_ ∨ _))

/-- How `p` stands to `q` in the row-major order. -/
def compare (p q : Point) : Ordering :=
  if p < q then .lt else if p = q then .eq else .gt

/-- Row and column displacement from `p` to `q`. -/
def deltaTo (p q : Point) : Int × Int :=
  ((q.row : Int) - p.row, (q.column : Int) - p.column)

/-- The point that stands to `base` as `relative` stands to the origin of a text laid out
from `base` on. -/
def rebase (base relative : Point) : Point :=
  if relative.row = 0 then ⟨base.row, base.column + relative.column⟩
  else ⟨base.row + relative.row, relative.column⟩

/-- A point for display: `(row, column)`. -/
def display (p : Point) : String :=
  "(" ++ Nat.repr p.row ++ ", " ++ Nat.repr p.column ++ ")"

end Point

/-- A pair of points. -/
structure Range where
  start : Point
  stop : Point
deriving DecidableEq, Inhabited

namespace Range

/-- The range between two points given in either order. -/
def between (p q : Point) : Range :=
  if p ≤ q then ⟨p, q⟩ else ⟨q, p⟩

/-- Whether both ends are one point. -/
def isPoint (r : Range) : Bool :=
  r.start == r.stop

/-- Whether both ends lie on one row. -/
def isSingleLine (r : Range) : Bool :=
  r.start.row == r.stop.row

/-- Whether `p` lies in the range, both ends included. -/
def contains (r : Range) (p : Point) : Bool :=
  decide (r.start ≤ p ∧ p ≤ r.stop)

/-- Whether two ranges share more than an end. -/
def overlaps (r s : Range) : Bool :=
  decide (r.start < s.stop ∧ s.start < r.stop)

/-- Whether both ends of `s` are displaced from those of `r` by the same amount. -/
def isTranslationOf (r s : Range) : Bool :=
  r.start.deltaTo s.start == r.stop.deltaTo s.stop

/-- A range for display: `[start - stop]`. -/
def display (r : Range) : String :=
  "[" ++ r.start.display ++ " - " ++ r.stop.display ++ "]"

end Range

end TemplateFolding
