import TemplateFolding.Editor.Basic

/-!
# Overlays on the screen

A decoration is drawn at the place where its marker starts, over whatever stands there. Later
decorations are drawn over earlier ones.
-/

namespace TemplateFolding

/-- An overlay and where it is drawn. -/
structure OverlayView where
  marker : MarkerId
  overlay : Overlay
  range : Range
  screen : Point
deriving DecidableEq

/-- A line with `cover` written on it from a column on. A line that is too short is filled up with
spaces. -/
def Text.overwrite (line : Text) (column : Nat) (cover : Text) : Text :=
  if cover.isEmpty then line
  else
    line.take column ++ List.replicate (column - line.length) ' ' ++ cover ++
      line.drop (column + cover.length)

namespace Editor

/-- The overlay of a decoration, if its marker exists. -/
def overlayOf? (e : Editor) (d : Decoration) : Option OverlayView :=
  (e.markers.get? d.marker).map fun m => ⟨d.marker, d.overlay, m.range, e.screenPoint m.range.start⟩

/-- The overlays in the order of their decorations. -/
def overlays (e : Editor) : List OverlayView :=
  e.decorations.values.filterMap e.overlayOf?

/-- Draws one overlay. One that is not on any line is not drawn. -/
def paint (lines : List Text) (v : OverlayView) : List Text :=
  lines.modify v.screen.row fun line => line.overwrite v.screen.column v.overlay.text

/-- The lines as displayed, with all overlays drawn. -/
def paintedLines (e : Editor) : List Text :=
  e.overlays.foldl paint e.screenLines

end Editor

end TemplateFolding
