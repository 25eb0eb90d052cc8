import TemplateFolding.Text.Point

/-!
# What happened to a folding

The screen extent of a folding right after it was made is the shape that later extents are compared
with. From the comparison alone follows whether the folding has moved, was hidden or revealed by a
fold around it, or was damaged.
-/

namespace TemplateFolding

/-- What a change of its marker means for a folding. -/
inductive Transition where
  /-- The same shape elsewhere. -/
  | translated
  /-- Back from a point to the folded shape. -/
  | becameVisible
  /-- Collapsed to a point by a fold around it. -/
  | becameHidden
  /-- The range is no longer tracked. -/
  | invalidated
  /-- The shape is different; the folding cannot be kept. -/
  | destructive
deriving DecidableEq

/-- Classifies the change of a marker from the extent `old` to `new` against the extent it had when
the folding was made. -/
def Transition.classify (old new initial : Range) (valid textChanged : Bool) : Transition :=
  if !valid then .invalidated
  else if initial.isTranslationOf new then
    if old.isPoint then .becameVisible else .translated
  else if new.isPoint && !textChanged then .becameHidden
  else .destructive

end TemplateFolding
