import TemplateFolding.Editor.Basic

/-!
# Folding part of a line

A fold collapses a whole range to one placeholder. To leave exactly `width` columns of a range
visible, every line ending inside it is folded first, which joins it onto one screen row, and then
a piece at its front that is `visualLength - width + 1` steps long; the one step more pays for the
placeholder that this fold leaves behind.
-/

namespace TemplateFolding

open Text

/-- What can be said of folding a range down to a width. -/
inductive FoldCheck where
  | possible
  /-- The width is zero. -/
  | noWidth
  /-- The width is larger than the text. -/
  | tooWide
  | textHasTabs
  | exceedsLineLength
deriving DecidableEq

/-- A call that the folding functions do not serve. -/
inductive ContractFault where
  /-- The stop of a range lies before its start once both are clipped. -/
  | unreadable (range : Range)
  /-- Atomic soft tabs are on. -/
  | softTabs
  /-- There is no such marker. -/
  | releasedMarker (marker : MarkerId)
  /-- There is too little text for the width. -/
  | tooWide (length width : Nat)
deriving DecidableEq

/-- The fault in words, where there is something to say. -/
def ContractFault.message? : ContractFault → Option String
  | .unreadable _ => none
  | .softTabs => some "pseudo-folding requires atomic soft tabs to be disabled"
  | .releasedMarker _ => some "pseudo-folding over a released marker"
  | .tooWide length width =>
    some ("cannot pseudo-fold " ++ Nat.repr length ++ " chars down to " ++ Nat.repr width)

/-- The text of a range, or the fault of asking for it. -/
def Editor.read (e : Editor) (r : Range) : Except ContractFault Text :=
  match e.text.slice? r with
  | some t => .ok t
  | none => .error (.unreadable r)

/-- Folds that together leave a fixed number of columns of a marker's range visible. -/
structure PartialFold where
  marker : MarkerId
  folds : List FoldId
deriving DecidableEq

namespace PartialFold

/-- Whether a range can be folded down to a width: the width is positive, there are no tabs, the
text is wide enough, and the result stays below the line length that is enforced, if one is. -/
def check (e : Editor) (r : Range) (width : Nat) (maxLineLength : Option Nat) :
    Except ContractFault FoldCheck :=
  if width = 0 then .ok .noWidth
  else do
    let text ← e.read r
    if text.contains '\t' then return .textHasTabs
    if text.visualLength < width then return .tooWide
    match maxLineLength with
    | none => return .possible
    | some max =>
      if (e.screenPoint r.start).column + width < max then return .possible
      else return .exceedsLineLength

/-- Folds ranges one after the other. -/
def foldEach (e : Editor) : List Range → List FoldId × Editor
  | [] => ([], e)
  | r :: rest =>
    let (id, e) := e.fold r
    let (ids, e) := foldEach e rest
    (id :: ids, e)

/-- The line endings inside a range. -/
def lineEndings (t : Text) (r : Range) : List Range :=
  (List.range (r.stop.row - r.start.row)).map fun i =>
    .between (t.lineEnd (r.start.row + i)) ⟨r.start.row + i + 1, 0⟩

/-- The ranges to fold so that `width` columns of a range stay visible. -/
def pieces (t : Text) (r : Range) (width : Nat) : List Range :=
  lineEndings t r ++
    [.between r.start (t.advance r.start ((t.slice r).visualLength - width + 1))]

/-- Folds the range of a marker down to `width` columns. -/
def create (e : Editor) (marker : MarkerId) (width : Nat) :
    Except ContractFault (PartialFold × Editor) :=
  if e.settings.atomicSoftTabs then .error .softTabs
  else
    match e.markerRange? marker with
    | none => .error (.releasedMarker marker)
    | some r => do
      let length := (← e.read r).visualLength
      if length < width then .error (.tooWide length width)
      else
        let (folds, e) := foldEach e (pieces e.text r width)
        return (⟨marker, folds⟩, e)

/-- Removes the folds; others on the same rows stay. -/
def destroy (p : PartialFold) (e : Editor) : Editor :=
  p.folds.foldl Editor.destroyFold e

end PartialFold

end TemplateFolding
