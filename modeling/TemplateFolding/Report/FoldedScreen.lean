import TemplateFolding.Editor.Overlay
import TemplateFolding.Report.Terminal

/-!
# The screen of an editor as styled text

The lines as displayed, with every overlay drawn in its style. On each row the overlays are taken
from left to right; one that starts inside another is drawn into the line but gets no style of its
own.
-/

namespace TemplateFolding

open Piece

/-- An overlay on a row of the screen. -/
structure RowOverlay where
  column : Nat
  text : Text
  underCursor : Bool
deriving DecidableEq

/-- The style of the keyword in a preview. -/
def keywordStyle : Style := { colour := some .magenta, bold := true }

/-- What stands between `template<` and `>`, if the text has that form. -/
def innerParams? (t : Text) : Option Text :=
  (Text.expect? "template<".toList t).bind fun rest =>
    if rest.getLast? = some '>' then some rest.dropLast else none

/-- A preview with `template<` and `>` in the style of the keyword. -/
def previewPieces (t : Text) : List Piece :=
  match innerParams? t with
  | some params =>
    styled keywordStyle "template<".toList ++ .text params :: styled keywordStyle ['>']
  | none => [.text t]

/-- An overlay in its style. -/
def RowOverlay.pieces (o : RowOverlay) : List Piece :=
  (if o.underCursor then [.switch { underlined := true }] else []) ++ previewPieces o.text ++ [.reset]

/-- Puts an overlay behind those that do not start after it. -/
def RowOverlay.place (o : RowOverlay) : List RowOverlay → List RowOverlay
  | [] => [o]
  | p :: rest => if o.column < p.column then o :: p :: rest else p :: place o rest

/-- A line that is written up to a column, from there on: the overlays that do not start before that
column in their styles, and the text between them. -/
def linePieces (line : Text) (column : Nat) : List RowOverlay → List Piece
  | [] => [.text (line.drop column)]
  | o :: rest =>
    if o.column < column then linePieces line column rest
    else
      .text ((line.drop column).take (o.column - column)) ::
        o.pieces ++ linePieces line (o.column + o.text.length) rest

/-- A line with an overlay drawn into it, filled up with spaces to its end if need be. -/
def Text.imprint (line : Text) (column : Nat) (cover : Text) : Text :=
  line.take column ++ List.replicate (column - line.length) ' ' ++ cover ++
    line.drop (column + cover.length)

/-- A row of the screen: the line with everything drawn into it, and its overlays by column. -/
abbrev ScreenRow := Text × List RowOverlay

/-- Draws an overlay on its row. -/
def drawOverlay (rows : List ScreenRow) (v : OverlayView) : List ScreenRow :=
  rows.modify v.screen.row fun (line, overlays) =>
    (line.imprint v.screen.column v.overlay.text,
      RowOverlay.place
        ⟨v.screen.column, v.overlay.text, v.overlay.style.endsWith "under-cursor"⟩ overlays)

/-- A text without its last character if it ends in an empty line. -/
def dropEmptyLastLine (t : Text) : Text :=
  if t = ['\n'] ∨ ['\n', '\n'].isSuffixOf t then t.dropLast else t

namespace Editor

/-- The rows of the screen with all overlays drawn. -/
def screenRows (e : Editor) : List ScreenRow :=
  e.overlays.foldl drawOverlay (e.screenLines.map fun line => (line, []))

/-- The screen with all overlays in their styles, one line for each row. -/
def foldedScreen (e : Editor) (colours : Bool) : Text :=
  dropEmptyLastLine <| writeAll colours <| e.screenRows.flatMap fun (line, overlays) =>
    linePieces line 0 overlays ++ [.text ['\n']]

end Editor

end TemplateFolding
