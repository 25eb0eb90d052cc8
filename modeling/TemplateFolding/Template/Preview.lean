import TemplateFolding.Template.Parameter

/-!
# Previews of parameter lists

A preview is the parameter list on one line, reduced to what a reader needs: names and defaults of
type parameters, the text of the others, every run of blanks one space. A list without type
information has no preview.
-/

namespace TemplateFolding

open Text

/-- Why a parameter list has no preview. -/
inductive PreviewRefusal where
  | empty
  | onlyNonType
deriving DecidableEq

/-- The reason in words. -/
def PreviewRefusal.message : PreviewRefusal → String
  | .empty => "empty template parameter list"
  | .onlyNonType => "parameter list has no type or template parameters"

/-- The one-line form of a type parameter; `_` stands for a missing name. -/
def TypeSpec.render (s : TypeSpec) : Text :=
  let name := normalize s.name
  let default := normalize s.default
  (if s.isPack then "...".toList else []) ++
    (if name.isEmpty then ['_'] else name) ++
    (if default.isEmpty then [] else " = ".toList ++ default)

namespace Parameter

mutual

/-- The one-line form of a parameter. -/
def render : Parameter → Text
  | .type spec => spec.render
  | .nonType value => normalize value
  | .template params spec => "template<".toList ++ renderList params ++ "> ".toList ++ spec.render

/-- The one-line forms of parameters with commas between them. -/
def renderList : List Parameter → Text
  | [] => []
  | [p] => render p
  | p :: q :: ps => render p ++ ", ".toList ++ renderList (q :: ps)

end

end Parameter

/-- The one-line form of a parameter list. -/
structure Preview where
  /-- What stands between `template<` and `>`. -/
  paramsText : Text
deriving DecidableEq

namespace Preview

/-- The preview as it is drawn. -/
def text (p : Preview) : Text :=
  "template<".toList ++ p.paramsText ++ [ '>' ]

/-- The number of columns the preview takes. -/
def width (p : Preview) : Nat :=
  p.text.length

/-- The preview of a parameter list. -/
def ofParams (params : List Parameter) : Except PreviewRefusal Preview :=
  if params.isEmpty then .error .empty
  else if params.all Parameter.isNonType then .error .onlyNonType
  else .ok ⟨Parameter.renderList params⟩

end Preview

end TemplateFolding
