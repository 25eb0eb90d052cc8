import TemplateFolding.Text.Basic

/-!
# Consuming readers

A reader takes a value off the front of a text and returns what is left. `Reader` carries the fact
that it consumes something, which is what makes reading a comma-separated list end.
-/

namespace TemplateFolding

open Text

/-- A way to take a value off the front of a text. What is left is shorter. -/
structure Reader (α : Type) where
  read : Text → Option (α × Text)
  shorter : ∀ {t a rest}, read t = some (a, rest) → rest.length < t.length

/-- Reads items with commas between them, up to and including the closing `>`. -/
def Reader.commaList {α : Type} (item : Reader α) (t : Text) : Option (List α × Text) :=
  match _item : item.read t with
  | none => none
  | some (a, rest) =>
    match _rest : skipLayout rest with
    | ',' :: rest' => (item.commaList (skipLayout rest')).map fun (as, r) => (a :: as, r)
    | '>' :: rest' => some ([a], rest')
    | _ => none
termination_by t.length
decreasing_by
  have h₁ := item.shorter _item
  have h₂ := length_skipLayout_le rest
  have h₃ := length_skipLayout_le rest'
  simp only [_rest, List.length_cons] at h₂
  omega

theorem Reader.length_commaList {α : Type} (item : Reader α) {t : Text} {as : List α} {r : Text}
    (h : item.commaList t = some (as, r)) : r.length < t.length := by
  fun_induction item.commaList t generalizing as r with
  | case1 => simp at h
  | case2 t a rest ha rest' hr ih =>
    obtain ⟨⟨as', r'⟩, h', heq⟩ := Option.map_eq_some_iff.1 h
    have h₁ := item.shorter ha
    have h₂ := length_skipLayout_le rest
    have h₃ := length_skipLayout_le rest'
    have h₄ := ih h'
    simp only [hr, List.length_cons] at h₂
    simp only [Prod.mk.injEq] at heq
    obtain ⟨_, rfl⟩ := heq
    omega
  | case3 t a rest ha rest' hr =>
    have h₁ := item.shorter ha
    have h₂ := length_skipLayout_le rest
    simp only [hr, List.length_cons] at h₂
    simp only [Option.some.injEq, Prod.mk.injEq] at h
    obtain ⟨_, rfl⟩ := h
    omega
  | case4 => simp at h

end TemplateFolding
