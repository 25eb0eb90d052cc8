import TemplateFolding.Folding.FoldedEditor
import TemplateFolding.Template.Occurrence
import TemplateFolding.Template.Preview

/-!
# Folding every declaration

The folder finds the template declarations of a buffer, folds each behind its preview, and keeps
the foldings in step with later edits.
-/

namespace TemplateFolding

/-- A declaration that could not be folded, by the row of its keyword. -/
structure FoldFailure where
  row : Nat
  reason : FoldStatus
deriving DecidableEq

/-- The outcome of folding a whole buffer. -/
structure FoldReport where
  folded : Nat
  /-- The number of declarations without a preview. -/
  skipped : Nat
  failures : List FoldFailure
deriving DecidableEq

/-- Whether every declaration with a preview was folded. -/
def FoldReport.isClean (r : FoldReport) : Bool :=
  r.failures.isEmpty

/-- One line for each failure; rows are counted from one. -/
def FoldReport.notificationLines (r : FoldReport) : List String :=
  r.failures.map fun f => "line " ++ Nat.repr (f.row + 1) ++ ": " ++ f.reason.describe

/-- A folded editor and the number of the next folding. -/
structure AutoFolder where
  folded : FoldedEditor
  nextId : FoldingId := 1

namespace AutoFolder

/-- The folder of an editor without foldings. -/
def ofEditor (e : Editor) : AutoFolder := { folded := { editor := e } }

/-- The declarations in the buffer, folded or not. -/
def occurrences (a : AutoFolder) : List Occurrence :=
  Occurrence.all a.folded.editor.text

/-- The requests to fold the declarations that have a preview, numbered from `id` on. -/
def requestsFor (id : FoldingId) : List Occurrence → List FoldRequest
  | [] => []
  | o :: rest =>
    match Preview.ofParams o.params with
    | .ok preview => ⟨id, o.range, preview.text⟩ :: requestsFor (id + 1) rest
    | .error _ => requestsFor id rest

/-- The report on a batch of requests and their results. -/
def report (skipped : Nat) (requests : List FoldRequest) (results : List FoldResult) : FoldReport :=
  { folded := results.countP (·.isFolded)
    skipped
    failures := (results.zip requests).filterMap fun (result, request) =>
      if result.isFolded then none else some ⟨request.range.start.row, result.status⟩ }

/-- Folds the whole buffer from scratch. -/
def foldAll (a : AutoFolder) : Except BatchFault FoldReport × AutoFolder :=
  let folded := a.folded.unfoldAll
  let occurrences := Occurrence.all folded.editor.text
  let requests := requestsFor a.nextId occurrences
  let nextId := a.nextId + requests.length
  match folded.foldAll requests with
  | .error fault => (.error fault, { folded, nextId })
  | .ok (results, folded) =>
    (.ok (report (occurrences.length - requests.length) requests results), { folded, nextId })

/-- Takes all foldings down. -/
def unfoldAll (a : AutoFolder) : AutoFolder :=
  { a with folded := a.folded.unfoldAll }

/-- Makes a change to the editor and brings the foldings up to date with it. -/
def edit {α : Type} (a : AutoFolder) (change : Editor → α × Editor) : α × AutoFolder :=
  let (result, editor) := change a.folded.editor
  (result, { a with folded := { a.folded with editor }.process })

/-- Puts the cursor at the start of a folding, if it is live. -/
def click (a : AutoFolder) (id : FoldingId) : Bool × AutoFolder :=
  match a.folded.rangeOf? id with
  | none => (false, a)
  | some r => (true, (a.edit fun e => ((), e.setCursor r.start)).2)

/-- Takes all foldings down and hands the editor back. -/
def dispose (a : AutoFolder) : Editor :=
  a.folded.unfoldAll.editor

end AutoFolder

end TemplateFolding
