import TemplateFolding.Template.Declaration
import TemplateFolding.Text.Rows

/-!
# Finding declarations in a text

Every occurrence of the keyword is a candidate. One that starts a declaration is reported, and the
search goes on after its closing `>`; any other is passed over by the length of the keyword.
-/

namespace TemplateFolding

open Text

/-- A declaration and where it stands, from the keyword through the closing `>`. -/
structure Occurrence where
  range : Range
  params : List Parameter
deriving DecidableEq

/-- An occurrence together with its text and its byte offsets in the text that was searched. -/
structure Finding where
  startByte : Nat
  stopByte : Nat
  source : Text
  occurrence : Occurrence
deriving DecidableEq

theorem Declaration.length_rest_lt {t : Text} {d : Declaration} (h : parse? t = some d) :
    d.rest.length < t.length := by
  obtain ⟨⟨params, rest⟩, h', rfl⟩ := Option.map_eq_some_iff.1 h
  exact (Parameter.parameterList false Parameter.maxNesting).shorter h'

namespace Finding

/-- The declarations in a text whose first character stands at the given byte and point of a
larger one. -/
def allFrom (byte : Nat) (point : Point) (t : Text) : List Finding :=
  match t with
  | [] => []
  | c :: cs =>
    match _word : expect? Parameter.keyword (c :: cs) with
    | none => allFrom (byte + c.utf8Size) (pointAfter point [c]) cs
    | some afterWord =>
      match _found : Declaration.parse? (c :: cs) with
      | some d =>
        let stopByte := byte + d.consumed
        let stop := pointAfter point d.source
        ⟨byte, stopByte, d.source, ⟨point, stop⟩, d.params⟩ :: allFrom stopByte stop d.rest
      | none =>
        allFrom (byte + Parameter.keyword.byteLength) (pointAfter point Parameter.keyword) afterWord
termination_by t.length
decreasing_by
  · simp
  · exact Declaration.length_rest_lt _found
  · have := congrArg List.length (expect?_eq_some_iff.1 _word)
    simp only [List.length_append] at this
    have : Parameter.keyword.length = 8 := rfl
    omega

/-- The declarations in a text, in order. -/
def all (t : Text) : List Finding :=
  allFrom 0 .origin t

end Finding

namespace Occurrence

/-- The occurrence as seen from the text in which the searched one starts at `base`. -/
def rebase (base : Point) (o : Occurrence) : Occurrence :=
  ⟨⟨base.rebase o.range.start, base.rebase o.range.stop⟩, o.params⟩

/-- The declarations in a text, positions counted from its start. -/
def all (t : Text) : List Occurrence :=
  (Finding.all t).map (·.occurrence)

/-- The declarations in the part of a text that starts at `base`. -/
def allAt (base : Point) (part : Text) : List Occurrence :=
  (all part).map (rebase base)

/-- The declarations in a range of a text; none can be named when the range cannot be read. -/
def inRange? (t : Text) (r : Range) : Option (List Occurrence) :=
  (t.slice? r).map (allAt r.start)

end Occurrence

end TemplateFolding
