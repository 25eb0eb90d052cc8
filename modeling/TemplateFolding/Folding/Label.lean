import TemplateFolding.Editor.Basic

/-!
# Labels

A label is the overlay that shows a preview at the start of a marker. It can be hidden and shown
again, and it remembers its style while it is hidden.
-/

namespace TemplateFolding

/-- The style of a label. -/
inductive LabelStyle where
  | normal
  | underCursor
deriving DecidableEq

/-- The name of the style. -/
def LabelStyle.name : LabelStyle → String
  | .normal => "folding-preview"
  | .underCursor => "folding-preview-under-cursor"

/-- Text drawn at the start of a marker, or kept ready while it is hidden. -/
structure Label where
  marker : MarkerId
  text : Text
  style : LabelStyle
  decoration : Option DecorationId
deriving DecidableEq

namespace Label

/-- Whether the label is not drawn. -/
def isHidden (l : Label) : Bool :=
  l.decoration.isNone

/-- Draws the label if it is hidden. -/
def draw (l : Label) (e : Editor) : Label × Editor :=
  match l.decoration with
  | some _ => (l, e)
  | none =>
    let (id, e) := e.decorate l.marker ⟨l.text, l.style.name⟩
    ({ l with decoration := some id }, e)

/-- Takes the label off the screen. -/
def hide (l : Label) (e : Editor) : Label × Editor :=
  match l.decoration with
  | some id => ({ l with decoration := none }, e.destroyDecoration id)
  | none => (l, e)

/-- Changes the style, at once if the label is drawn. -/
def setStyle (l : Label) (e : Editor) (style : LabelStyle) : Label × Editor :=
  ({ l with style },
    match l.decoration with
    | some id => e.setStyle id style.name
    | none => e)

/-- A new label, drawn in the normal style. -/
def create (e : Editor) (marker : MarkerId) (text : Text) : Label × Editor :=
  draw ⟨marker, text, .normal, none⟩ e

/-- Removes the label. -/
def destroy (l : Label) (e : Editor) : Editor :=
  (l.hide e).2

end Label

end TemplateFolding
