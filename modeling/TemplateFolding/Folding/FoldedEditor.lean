import TemplateFolding.Folding.Highlight
import TemplateFolding.Folding.Label
import TemplateFolding.Folding.PartialFold
import TemplateFolding.Folding.Transition

/-!
# An editor with its foldings

A folding ties together a marker over a declaration, the folds that shrink it on the screen, and
the label drawn over what is left. The foldings follow the notifications of the editor: `process`
applies them until none are queued, and keeps each folding consistent with the text or takes it
down.

Requests to fold are served in batches. A batch is refused as a whole when the settings of the
editor do not allow folding; otherwise each request is answered for itself.
-/

namespace TemplateFolding

open Text

/-- The last thing that happened to a folding. -/
inductive FoldingEvent where
  | created
  | destroyed
  | moved
  | becameHidden
  | becameVisible
deriving DecidableEq

/-- The name of the event. -/
def FoldingEvent.name : FoldingEvent → String
  | .created => "created"
  | .destroyed => "destroyed"
  | .moved => "moved"
  | .becameHidden => "became_hidden"
  | .becameVisible => "became_visible"

/-- What can be observed of a folding. -/
structure FoldingInfo where
  lastEvent : FoldingEvent := .created
  highlighted : Bool := false
deriving DecidableEq

/-- What is known of a folding that is gone. -/
def FoldingInfo.destroyed : FoldingInfo := { lastEvent := .destroyed }

/-- The answer to a request to fold. -/
inductive FoldStatus where
  | ok
  | error
  | willExceedMaxLineLength
  | textHasTabs
deriving DecidableEq

namespace FoldStatus

/-- The name of the status. -/
def name : FoldStatus → String
  | .ok => "ok"
  | .error => "error"
  | .willExceedMaxLineLength => "will_exceed_max_line_length"
  | .textHasTabs => "text_has_tabs"

/-- The status in words. -/
def describe : FoldStatus → String
  | .ok => "folded"
  | .error => "cannot be folded"
  | .willExceedMaxLineLength => "preview would exceed the preferred line length"
  | .textHasTabs => "declaration contains tab characters"

/-- The status that follows from a check. -/
def ofCheck : FoldCheck → FoldStatus
  | .possible => .ok
  | .exceedsLineLength => .willExceedMaxLineLength
  | .textHasTabs => .textHasTabs
  | .noWidth | .tooWide => .error

end FoldStatus

/-- A range to fold behind a preview. -/
structure FoldRequest where
  id : FoldingId
  range : Range
  preview : Text
deriving DecidableEq

/-- What became of a request. There is information about the folding only if it was made. -/
structure FoldResult where
  id : FoldingId
  status : FoldStatus
  info : Option FoldingInfo
deriving DecidableEq

/-- Whether the request was granted. -/
def FoldResult.isFolded (r : FoldResult) : Bool :=
  r.status == .ok

/-- A declaration that is folded. -/
structure Folding where
  marker : MarkerId
  folds : PartialFold
  label : Label
  /-- The screen extent right after folding. -/
  initialScreen : Range
  info : FoldingInfo
deriving DecidableEq

/-- An editor and the foldings in it. -/
structure FoldedEditor where
  editor : Editor
  live : Table Folding := .empty
  /-- The folding that each of their markers belongs to. -/
  owners : Table FoldingId := .empty
  /-- The foldings that are gone and have not been made anew. -/
  retired : Table Unit := .empty
  highlighter : Highlighter := {}

/-- Why a batch is not served. -/
inductive BatchFault where
  | settings (fault : UnsupportedSoftWrap)
  | contract (fault : ContractFault)
deriving DecidableEq

namespace FoldedEditor

/-! ## Views -/

/-- What is known of a folding, live or gone. -/
def info? (s : FoldedEditor) (id : FoldingId) : Option FoldingInfo :=
  match s.live.get? id with
  | some f => some f.info
  | none => if s.retired.contains id then some .destroyed else none

/-- The buffer range of a live folding. -/
def rangeOf? (s : FoldedEditor) (id : FoldingId) : Option Range :=
  (s.live.get? id).bind fun f => s.editor.markerRange? f.marker

/-! ## Following the editor -/

/-- Applies a host operation to the editor. The foldings see it when they are next processed. -/
def host (s : FoldedEditor) (f : Editor → Editor) : FoldedEditor :=
  { s with editor := f s.editor }

/-- Takes a folding down: its label, its folds, then the marker they hang on. -/
def destroyFolding (s : FoldedEditor) (id : FoldingId) : FoldedEditor :=
  match s.live.get? id with
  | none => s
  | some f =>
    { editor := (f.folds.destroy (f.label.destroy s.editor)).destroyMarker f.marker
      live := s.live.erase id
      owners := s.owners.erase f.marker
      retired := s.retired.insert id ()
      highlighter := s.highlighter.forget id }

/-- Records that a folding stands elsewhere. -/
def followTranslated (s : FoldedEditor) (id : FoldingId) (f : Folding) (row : Nat) : FoldedEditor :=
  { s with
    live := s.live.insert id { f with info := { f.info with lastEvent := .moved } }
    highlighter := s.highlighter.manage id row }

/-- Shows the label of a folding that is visible again. -/
def followVisible (s : FoldedEditor) (id : FoldingId) (f : Folding) (row : Nat) : FoldedEditor :=
  let (label, editor) := f.label.draw s.editor
  { s with
    editor
    live := s.live.insert id { f with label, info := { f.info with lastEvent := .becameVisible } }
    highlighter := s.highlighter.manage id row }

/-- Hides the label of a folding that has been collapsed, and ends its highlighting. -/
def followHidden (s : FoldedEditor) (id : FoldingId) (f : Folding) : FoldedEditor :=
  let (label, editor) := f.label.setStyle s.editor .normal
  let (label, editor) := label.hide editor
  { s with
    editor
    live := s.live.insert id { f with label, info := ⟨.becameHidden, false⟩ }
    highlighter := s.highlighter.forget id }

/-- Follows the change of a marker, if it belongs to a folding. -/
def onMarkerChange (s : FoldedEditor) (c : MarkerChange) : FoldedEditor :=
  match (s.owners.get? c.marker).bind fun id => (s.live.get? id).map (id, ·) with
  | none => s
  | some (id, f) =>
    match Transition.classify c.old c.new f.initialScreen c.valid c.textChanged with
    | .translated => s.followTranslated id f c.new.start.row
    | .becameVisible => s.followVisible id f c.new.start.row
    | .becameHidden => s.followHidden id f
    | .invalidated | .destructive => s.destroyFolding id

/-- Turns the highlighting of a folding on or off, unless its label is hidden. -/
def setHighlight (s : FoldedEditor) (id : FoldingId) (on : Bool) : FoldedEditor :=
  match s.live.get? id with
  | none => s
  | some f =>
    if f.label.isHidden then s
    else
      let (label, editor) := f.label.setStyle s.editor (if on then .underCursor else .normal)
      { s with
        editor
        live := s.live.insert id { f with label, info := { f.info with highlighted := on } } }

/-- Carries out a change of highlighting. -/
def applyHighlight (s : FoldedEditor) : HighlightChange → FoldedEditor
  | .add id => s.setHighlight id true
  | .remove id => s.setHighlight id false

/-- Follows a move of the cursor. -/
def onCursorMove (s : FoldedEditor) (m : CursorMove) : FoldedEditor :=
  (s.highlighter.onCursorMove m s.rangeOf?).foldl applyHighlight s

/-- Applies the notifications that are queued now. -/
def processRound (s : FoldedEditor) : FoldedEditor :=
  let (changes, editor) := s.editor.drainMarkerChanges
  let (moves, editor) := editor.drainCursorMoves
  let s := changes.foldl onMarkerChange { s with editor }
  moves.foldl onCursorMove s

/-- Applies notifications until none are queued, for at most so many rounds. -/
def processRounds : (rounds : Nat) → FoldedEditor → FoldedEditor
  | 0, s => s
  | rounds + 1, s => if s.editor.hasPending then processRounds rounds s.processRound else s

/-- Applies notifications until none are queued. Only taking a folding down queues new ones, so one
round more than there are foldings is enough. -/
def process (s : FoldedEditor) : FoldedEditor :=
  processRounds (s.live.size + 1) s

/-! ## Folding -/

/-- Registers a folding whose marker, folds and label are in place. -/
def register (s : FoldedEditor) (id : FoldingId) (f : Folding) : FoldedEditor :=
  { s with
    live := s.live.insert id f
    owners := s.owners.insert f.marker id
    retired := s.retired.erase id
    highlighter := s.highlighter.manage id f.initialScreen.start.row }

/-- Makes a folding for a request that has passed the checks. Notifications that are queued already
belong to other foldings and are applied first; those that making the folding causes are applied
before it is registered, so it does not see them. -/
def createFolding (s : FoldedEditor) (request : FoldRequest) :
    Except ContractFault (FoldingInfo × FoldedEditor) := do
  let s := s.process
  let (marker, editor) := s.editor.createMarker request.range
  let (folds, editor) ← PartialFold.create editor marker request.preview.length
  let (label, editor) := Label.create editor marker request.preview
  let s := { s with editor }.process
  let initialScreen :=
    (s.editor.markerScreenRange? marker).getD (s.editor.screenRange request.range)
  let underCursor := (s.editor.markerRange? marker).any (·.contains s.editor.cursor)
  let (label, editor) :=
    if underCursor then label.setStyle s.editor .underCursor else (label, s.editor)
  let info : FoldingInfo := { highlighted := underCursor }
  return (info, { s with editor }.register request.id { marker, folds, label, initialScreen, info })

/-- Serves one request. -/
def foldOne (s : FoldedEditor) (maxLineLength : Option Nat) (request : FoldRequest) :
    Except ContractFault (FoldResult × FoldedEditor) :=
  if s.live.contains request.id then .ok (⟨request.id, .error, none⟩, s)
  else do
    let status := .ofCheck
      (← PartialFold.check s.editor request.range request.preview.length maxLineLength)
    if status = .ok then
      let (info, s) ← s.createFolding request
      return (⟨request.id, status, some info⟩, s)
    else
      return (⟨request.id, status, none⟩, s)

/-- Serves requests one after the other. -/
def foldEach (s : FoldedEditor) (maxLineLength : Option Nat) :
    List FoldRequest → Except ContractFault (List FoldResult × FoldedEditor)
  | [] => .ok ([], s)
  | request :: rest => do
    let (result, s) ← s.foldOne maxLineLength request
    let (results, s) ← s.foldEach maxLineLength rest
    return (result :: results, s)

/-- Serves a batch of requests, with highlighting suspended and atomic soft tabs off. What was
queued before is applied with highlighting on. -/
def foldAll (s : FoldedEditor) (requests : List FoldRequest) :
    Except BatchFault (List FoldResult × FoldedEditor) :=
  match s.editor.settings.maxLineLength with
  | .error fault => .error (.settings fault)
  | .ok maxLineLength =>
    let s := s.process
    let (suspension, highlighter) := s.highlighter.suspend
    let softTabs := s.editor.settings.atomicSoftTabs
    let s := { s with highlighter, editor := s.editor.setAtomicSoftTabs false }
    match s.foldEach maxLineLength requests with
    | .error fault => .error (.contract fault)
    | .ok (results, s) =>
      .ok (results,
        { s with
          highlighter := s.highlighter.resume suspension
          editor := s.editor.setAtomicSoftTabs softTabs })

/-- Takes all foldings down. -/
def unfoldAll (s : FoldedEditor) : FoldedEditor :=
  let s := s.live.keys.foldl destroyFolding s
  { s with highlighter := s.highlighter.forgetAll }.process

end FoldedEditor

end TemplateFolding
