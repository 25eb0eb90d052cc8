import TemplateFolding.Text.Basic

/-!
# Template parameters

The parameters of a `template<...>` list as the reader sees them: type parameters, template
parameters with a list of their own, and everything else, kept as text.
-/

namespace TemplateFolding

/-- What a type parameter declares after its keyword. An absent name or default is empty. -/
structure TypeSpec where
  isPack : Bool
  name : Text
  default : Text
deriving DecidableEq

/-- One parameter of a template parameter list. -/
inductive Parameter where
  /-- `class T`, `typename... Ts`, `typename U = int`. -/
  | type (spec : TypeSpec)
  /-- Anything that is neither a type nor a template parameter. -/
  | nonType (value : Text)
  /-- `template<class> class TT`. -/
  | template (params : List Parameter) (spec : TypeSpec)

namespace Parameter

/-- Whether the parameter carries no type information. -/
def isNonType : Parameter → Bool
  | .nonType _ => true
  | _ => false

mutual

/-- Equality of parameters is decided along their structure. -/
def decEq : (p q : Parameter) → Decidable (p = q)
  | .type s, .type s' => decidable_of_iff (s = s') (by simp)
  | .nonType v, .nonType v' => decidable_of_iff (v = v') (by simp)
  | .template ps s, .template ps' s' =>
    match decEqList ps ps' with
    | .isTrue h => decidable_of_iff (s = s') (by simp [h])
    | .isFalse h => .isFalse (by simp [h])
  | .type _, .nonType _ | .type _, .template _ _ | .nonType _, .type _
  | .nonType _, .template _ _ | .template _ _, .type _ | .template _ _, .nonType _ =>
    .isFalse (by simp)

/-- Equality of parameter lists is decided item by item. -/
def decEqList : (ps qs : List Parameter) → Decidable (ps = qs)
  | [], [] => .isTrue rfl
  | p :: ps, q :: qs =>
    match decEq p q with
    | .isTrue h =>
      match decEqList ps qs with
      | .isTrue h' => .isTrue (by rw [h, h'])
      | .isFalse h' => .isFalse (by simp [h'])
    | .isFalse h => .isFalse (by simp [h])
  | [], _ :: _ | _ :: _, [] => .isFalse (by simp)

end

instance : DecidableEq Parameter := decEq

end Parameter

end TemplateFolding
