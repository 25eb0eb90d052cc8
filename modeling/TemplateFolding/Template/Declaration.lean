import TemplateFolding.Template.Forms

/-!
# Template declarations

`template<...>` as it stands in front of a declaration. `parameterList` reads it with its
parameters; lists nest at most `maxNesting` deep. `Declaration.parse?` reads one at the start of a
text and keeps what follows, `Declaration.takeLists` takes lists off a text one after the other, and
`Parameter.parse?` reads a text that is one parameter and nothing else.
-/

namespace TemplateFolding

open Text

namespace Parameter

/-- The deepest nesting of parameter lists that is read. -/
def maxNesting : Nat := 32

/-- One parameter, the lists in it read by `nested`. -/
def parameter (standalone : Bool) (nested : Reader (List Parameter)) : Reader Parameter where
  read := parameter? standalone nested
  shorter := length_parameter?

/-- What follows the keyword: `<`, the parameters and `>`. -/
def angleList? (item : Reader Parameter) (t : Text) : Option (List Parameter × Text) :=
  match skipLayout t with
  | '<' :: t' =>
    match skipLayout t' with
    | '>' :: rest => some ([], rest)
    | t'' => item.commaList t''
  | _ => none

theorem length_angleList? {item : Reader Parameter} {t rest : Text} {params : List Parameter}
    (h : angleList? item t = some (params, rest)) : rest.length < t.length := by
  have l₁ := length_skipLayout_le t
  rw [angleList?] at h
  split at h
  · rename_i t' h₁
    have l₂ := length_skipLayout_le t'
    simp only [h₁, List.length_cons] at l₁
    split at h
    · rename_i rest' h₂
      simp only [Option.some.injEq, Prod.mk.injEq] at h
      obtain ⟨_, rfl⟩ := h
      simp only [h₂, List.length_cons] at l₂
      omega
    · have l₃ := item.length_commaList h
      omega
  · simp at h

/-- The keyword and what follows it. -/
def keywordList? (item : Reader Parameter) (t : Text) : Option (List Parameter × Text) :=
  (expect? keyword t).bind (angleList? item)

theorem length_keywordList? {item : Reader Parameter} {t rest : Text} {params : List Parameter}
    (h : keywordList? item t = some (params, rest)) : rest.length < t.length := by
  obtain ⟨t', h₁, h₂⟩ := Option.bind_eq_some_iff.1 h
  have l₁ := congrArg List.length (expect?_eq_some_iff.1 h₁)
  have l₂ := length_angleList? h₂
  simp only [List.length_append] at l₁
  omega

/-- `template<...>` with its parameters; `depth` lists may be open at once. -/
def parameterList (standalone : Bool) : (depth : Nat) → Reader (List Parameter)
  | 0 => { read := fun _ => none, shorter := nofun }
  | depth + 1 =>
    { read := keywordList? (parameter standalone (parameterList standalone depth))
      shorter := length_keywordList? }

end Parameter

/-- A `template<...>` at the start of a text. -/
structure Declaration where
  params : List Parameter
  /-- From the keyword through the closing `>`. -/
  source : Text
  /-- What follows the closing `>`. -/
  rest : Text
deriving DecidableEq

namespace Declaration

/-- Size of the declaration in bytes. -/
def consumed (d : Declaration) : Nat :=
  d.source.byteLength

/-- The declaration at the start of a text, and what follows it. Values and defaults are read with
the whole text in view: where one leaves a group open, as the comparison `N < 3` does, what follows
can make it read on or fail. -/
def parse? (t : Text) : Option Declaration :=
  ((Parameter.parameterList false Parameter.maxNesting).read t).map fun (params, rest) =>
    ⟨params, t.take (t.length - rest.length), rest⟩

/-- The parameters of the list at the start of a text, and the text after it. Without such a list
the text is left as it is. -/
def next (t : Text) : Option (List Parameter) × Text :=
  match (Parameter.parameterList false Parameter.maxNesting).read t with
  | some (params, rest) => (some params, rest)
  | none => (none, t)

/-- What `count` attempts to take a list off the text give, each made where the last one ended. -/
def takeLists : (count : Nat) → Text → List (Option (List Parameter))
  | 0, _ => []
  | count + 1, t => (next t).1 :: takeLists count (next t).2

end Declaration

/-- The parameter that is the whole text, layout around it aside. -/
def Parameter.parse? (t : Text) : Option Parameter :=
  match (parameter true (parameterList true maxNesting)).read (skipLayout t) with
  | some (p, rest) => if (skipLayout rest).isEmpty then some p else none
  | none => none

end TemplateFolding
