import TemplateFolding.Text.Basic

/-!
# Paths

A path is text whose parts are separated by `/`. Empty parts count for nothing, and neither does
`.`, except as the first part of a relative path. What a path means is its list of components;
paths are compared and stripped component by component, while the text between them is kept.
-/

namespace TemplateFolding

/-- A path as written. -/
abbrev Path := Text

namespace Path

/-- One step of a path. -/
inductive Component where
  | root
  | current
  | parent
  | normal (name : Text)
deriving DecidableEq

/-- The pieces of a text between the occurrences of a separator. -/
def splitAt (separator : Char) : Text → List Text
  | [] => [[]]
  | c :: cs =>
    if c = separator then [] :: splitAt separator cs
    else
      match splitAt separator cs with
      | [] => [[c]]
      | part :: rest => (c :: part) :: rest

/-- The texts between the slashes. -/
def parts (p : Path) : List Text :=
  splitAt '/' p

/-- Whether the path starts at the root. -/
def isAbsolute (p : Path) : Bool :=
  p.head? == some '/'

/-- The component that a part after the first stands for. -/
def component? (part : Text) : Option Component :=
  if part = [] ∨ part = ['.'] then none
  else if part = ['.', '.'] then some .parent
  else some (.normal part)

/-- The component that the first part stands for. -/
def firstComponent? (p : Path) (part : Text) : Option Component :=
  if p.isAbsolute then some .root
  else if part = ['.'] then some .current
  else component? part

/-- The parts of a path that stand for a component, each with it. -/
def steps (p : Path) : List (Text × Option Component) :=
  match p.parts with
  | [] => []
  | part :: rest => (part, firstComponent? p part) :: rest.map fun part => (part, component? part)

/-- The steps of a path. -/
def components (p : Path) : List Component :=
  p.steps.filterMap (·.2)

/-- The name at the end of the path. -/
def fileName? (p : Path) : Option Text :=
  match p.components.getLast? with
  | some (.normal name) => some name
  | _ => none

/-- What follows the last dot of the name, unless the name has no other dot than its first
character. -/
def extension? (p : Path) : Option Text :=
  match p.fileName? with
  | none => none
  | some name =>
    let extension := (name.reverse.takeWhile (· != '.')).reverse
    if extension.length + 1 < name.length then some extension else none

/-- A path below another. -/
def join (p q : Path) : Path :=
  if q.isAbsolute ∨ p = [] then q
  else if p.getLast? = some '/' then p ++ q
  else p ++ '/' :: q

/-- The steps after those that stand for the components of `base`, if these come first. -/
def stepsAfter : List Component → List (Text × Option Component) →
    Option (List (Text × Option Component))
  | [], steps => some steps
  | _ :: _, [] => none
  | base, (_, none) :: steps => stepsAfter base steps
  | b :: base, (_, some c) :: steps => if b = c then stepsAfter base steps else none

/-- The path as seen from `base`, if it lies below it. -/
def relativeTo? (base p : Path) : Option Path :=
  (stepsAfter base.components p.steps).map fun steps =>
    let steps := steps.dropWhile (·.2.isNone)
    let steps := (steps.reverse.dropWhile (·.2.isNone)).reverse
    Text.join ['/'] (steps.map (·.1))

namespace Component

/-- The place of a component's kind in the order of components. -/
def rank : Component → Nat
  | .root => 0
  | .current => 1
  | .parent => 2
  | .normal _ => 3

/-- The name of a component that has one. -/
def name : Component → Text
  | .normal name => name
  | _ => []

/-- Whether a component does not come after another: by kind, then by name. -/
def le (a b : Component) : Bool :=
  decide (a.rank < b.rank) ||
    (a.rank == b.rank && !(b.name.lex a.name fun c d => decide (c < d)))

end Component

/-- Whether a list of components does not come after another in lexicographic order. -/
def componentsLe : List Component → List Component → Bool
  | [], _ => true
  | _ :: _, [] => false
  | a :: as, b :: bs => if a = b then componentsLe as bs else a.le b

/-- Whether a path does not come after another, component by component. -/
def le (p q : Path) : Bool :=
  componentsLe p.components q.components

end Path

end TemplateFolding
