import TemplateFolding.Template.Parameter
import TemplateFolding.Text.Reader

/-!
# The forms of a template parameter

The functions here read one parameter off the front of a text and return what is left of it. A
parameter is tried against three forms in order, and the first one that is followed by `,` or `>`
wins:

* a type parameter (`class` or `typename`), with a default or without one;
* a template parameter: a nested `template<...>` list and a type parameter after it;
* a non-type parameter: a run in which `<...>` and `(...)` groups are closed or, failing that,
  everything up to the next `,` or `>`.

The closing lemmas say that every form consumes something.
-/

namespace TemplateFolding

open Text

/-! ## Tokens -/

namespace Parameter

/-- The word every declaration starts with. -/
def keyword : Text := "template".toList

/-- Whether a character continues an identifier. Every character outside ASCII does. -/
def isIdentifier (c : Char) : Bool :=
  c.isAlphanum || c == '_' || decide (128 ≤ c.toNat)

/-- Whether a character can belong to the name of a type parameter. -/
def isNameChar (c : Char) : Bool :=
  !(c == ',' || c == '=' || c == '<' || c == '>')

/-- Whether a character ends a parameter. -/
def isEnd (c : Char) : Bool :=
  c == ',' || c == '>'

/-- Whether a parameter may end here: `,` or `>` follows, after optional layout. The end of the
text counts too for a parameter that stands alone. -/
def atEnd (standalone : Bool) (t : Text) : Bool :=
  match skipLayout t with
  | [] => standalone
  | c :: _ => isEnd c

/-- Reads `typename` or `class` as a whole word. -/
def typeKeyword? (t : Text) : Option Text :=
  match expect? "typename".toList t <|> expect? "class".toList t with
  | none => none
  | some [] => some []
  | some (c :: cs) => if isIdentifier c then none else some (c :: cs)

/-! ## Runs with closed groups -/

/-- The brackets that are open. -/
structure Nesting where
  angles : Nat
  parens : Nat
deriving DecidableEq

/-- No bracket is open. -/
def Nesting.none : Nesting := ⟨0, 0⟩

/-- The open brackets after one more character. Inside parentheses angle brackets are plain
characters. At the outermost level a parenthesis opens a group only when `grouped` is set; inside
angle brackets it always does. -/
def Nesting.push (grouped : Bool) (nesting : Nesting) (c : Char) : Nesting :=
  if nesting.parens = 0 then
    if c = '<' then ⟨nesting.angles + 1, 0⟩
    else if c = '>' then ⟨nesting.angles - 1, 0⟩
    else if c = '(' ∧ (grouped ∨ nesting.angles ≠ 0) then ⟨nesting.angles, 1⟩
    else nesting
  else
    if c = '(' then ⟨nesting.angles, nesting.parens + 1⟩
    else if c = ')' then ⟨nesting.angles, nesting.parens - 1⟩
    else nesting

/-- Reads up to a `,` or `>` that is outside all groups, with the brackets of `nesting` open. A
group left open is a failure. -/
def closedRun (grouped : Bool) (nesting : Nesting) : Text → Option (Text × Text)
  | [] => if nesting = .none then some ([], []) else none
  | c :: cs =>
    if nesting = .none ∧ isEnd c then some ([], c :: cs)
    else (closedRun grouped (nesting.push grouped c) cs).map fun (run, rest) => (c :: run, rest)

/-- Reads a run with closed groups that is not blank. -/
def filledRun? (grouped : Bool) (t : Text) : Option (Text × Text) :=
  match closedRun grouped .none t with
  | some (run, rest) => if (trim run).isEmpty then none else some (run, rest)
  | none => none

/-! ## Parameters -/

/-- `("class" | "typename") name "=" run`. -/
def typeWithDefault? (t : Text) : Option (TypeSpec × Text) := do
  let t ← typeKeyword? t
  match t.dropWhile isNameChar with
  | '=' :: t' =>
    let (run, rest) ← filledRun? false (skipLayout t')
    some (⟨false, trim (t.takeWhile isNameChar), trim run⟩, rest)
  | _ => none

/-- `("class" | "typename") ["..."] name`. -/
def typeWithoutDefault? (t : Text) : Option (TypeSpec × Text) := do
  let t := skipLayout (← typeKeyword? t)
  let pack := expect? "...".toList t
  let t := skipLayout (pack.getD t)
  some (⟨pack.isSome, trim (t.takeWhile isNameChar), []⟩, t.dropWhile isNameChar)

/-- A type parameter with a default or without one, whichever ends where a parameter may end. -/
def typeParameter? (standalone : Bool) (t : Text) : Option (TypeSpec × Text) :=
  (typeWithDefault? t).filter (atEnd standalone ·.2) <|>
    (typeWithoutDefault? t).filter (atEnd standalone ·.2)

/-- A nested list and the type parameter after it. -/
def templateParameter? (standalone : Bool) (nested : Reader (List Parameter)) (t : Text) :
    Option (Parameter × Text) := do
  let (params, t) ← nested.read t
  let (spec, t) ← typeParameter? standalone (skipLayout t)
  some (.template params spec, t)

/-- Everything up to the next `,` or `>`, if it is not blank. -/
def looseRun? (t : Text) : Option (Text × Text) :=
  let run := t.takeWhile (!isEnd ·)
  if (trim run).isEmpty then none else some (run, t.dropWhile (!isEnd ·))

/-- A run with closed groups that ends where a parameter may end, or else a loose run that does. -/
def nonTypeParameter? (standalone : Bool) (t : Text) : Option (Parameter × Text) :=
  ((filledRun? true t).filter (atEnd standalone ·.2) <|>
    (looseRun? t).filter (atEnd standalone ·.2)).map fun (run, rest) => (.nonType (trim run), rest)

/-- One parameter, the first of the three forms that fits. -/
def parameter? (standalone : Bool) (nested : Reader (List Parameter)) (t : Text) :
    Option (Parameter × Text) :=
  (typeParameter? standalone t).map (fun (spec, rest) => (.type spec, rest)) <|>
    templateParameter? standalone nested t <|> nonTypeParameter? standalone t

/-! ## Every form consumes something -/

theorem closedRun_append {grouped : Bool} {nesting : Nesting} {t run rest : Text}
    (h : closedRun grouped nesting t = some (run, rest)) : t = run ++ rest := by
  induction t generalizing nesting run rest with
  | nil =>
    rw [closedRun] at h
    split at h <;> simp_all
  | cons c cs ih =>
    rw [closedRun] at h
    split at h
    · simp_all
    · obtain ⟨⟨run', rest'⟩, h', heq⟩ := Option.map_eq_some_iff.1 h
      simp only [Prod.mk.injEq] at heq
      obtain ⟨rfl, rfl⟩ := heq
      rw [ih h', List.cons_append]

theorem trim_nil : trim [] = [] := rfl

theorem length_filledRun? {grouped : Bool} {t run rest : Text}
    (h : filledRun? grouped t = some (run, rest)) : rest.length < t.length := by
  rw [filledRun?] at h
  split at h
  · rename_i run' rest' h'
    split at h
    · simp at h
    · rename_i hne
      simp only [Option.some.injEq, Prod.mk.injEq] at h
      obtain ⟨rfl, rfl⟩ := h
      have hpos : run' ≠ [] := fun h₀ => hne (by simp [h₀, trim_nil])
      have := List.length_pos_iff.2 hpos
      simp [closedRun_append h', this]
  · simp at h

theorem length_looseRun? {t run rest : Text} (h : looseRun? t = some (run, rest)) :
    rest.length < t.length := by
  simp only [looseRun?] at h
  split at h
  · simp at h
  · rename_i hne
    simp only [Option.some.injEq, Prod.mk.injEq] at h
    obtain ⟨rfl, rfl⟩ := h
    have hpos : t.takeWhile (!isEnd ·) ≠ [] := fun h₀ => hne (by simp [h₀, trim_nil])
    have h₁ := List.length_pos_iff.2 hpos
    have h₂ := congrArg List.length (List.takeWhile_append_dropWhile (p := (!isEnd ·)) (l := t))
    simp only [List.length_append] at h₂
    omega

theorem length_typeKeyword? {t rest : Text} (h : typeKeyword? t = some rest) :
    rest.length < t.length := by
  have key : ∀ {r}, (expect? "typename".toList t <|> expect? "class".toList t) = some r →
      r.length < t.length := by
    intro r hr
    simp only [Option.orElse_eq_orElse, Option.orElse_eq_or, Option.or_eq_some_iff] at hr
    rcases hr with h₁ | ⟨_, h₁⟩ <;>
      · rw [expect?_eq_some_iff.1 h₁]
        simp
        omega
  rw [typeKeyword?] at h
  split at h
  · simp at h
  · rename_i hr
    simp only [Option.some.injEq] at h
    exact h ▸ key hr
  · rename_i hr
    split at h
    · simp at h
    · simp only [Option.some.injEq] at h
      exact h ▸ key hr

theorem length_typeWithDefault? {t rest : Text} {spec : TypeSpec}
    (h : typeWithDefault? t = some (spec, rest)) : rest.length < t.length := by
  simp only [typeWithDefault?, Option.bind_eq_bind, Option.bind_eq_some_iff] at h
  obtain ⟨t₁, h₁, h⟩ := h
  have l₁ := length_typeKeyword? h₁
  split at h
  · rename_i t₂ h₂
    obtain ⟨⟨run, rest'⟩, h₃, h⟩ := Option.bind_eq_some_iff.1 h
    simp only [Option.some.injEq, Prod.mk.injEq] at h
    obtain ⟨_, rfl⟩ := h
    have l₂ := (List.dropWhile_sublist (l := t₁) isNameChar).length_le
    have l₃ := length_skipLayout_le t₂
    have l₄ := length_filledRun? h₃
    simp only [h₂, List.length_cons] at l₂
    omega
  · simp at h

theorem length_typeWithoutDefault? {t rest : Text} {spec : TypeSpec}
    (h : typeWithoutDefault? t = some (spec, rest)) : rest.length < t.length := by
  simp only [typeWithoutDefault?, Option.bind_eq_bind, Option.bind_eq_some_iff] at h
  obtain ⟨t₁, h₁, h⟩ := h
  simp only [Option.some.injEq, Prod.mk.injEq] at h
  obtain ⟨_, rfl⟩ := h
  have l₁ := length_typeKeyword? h₁
  have l₂ := length_skipLayout_le t₁
  have l₃ : ((expect? "...".toList (skipLayout t₁)).getD (skipLayout t₁)).length ≤
      (skipLayout t₁).length := by
    cases h₃ : expect? "...".toList (skipLayout t₁) with
    | none => simp
    | some r =>
      have := congrArg List.length (expect?_eq_some_iff.1 h₃)
      simp only [List.length_append] at this
      simp only [Option.getD_some]
      omega
  have l₄ := length_skipLayout_le ((expect? "...".toList (skipLayout t₁)).getD (skipLayout t₁))
  have l₅ := (List.dropWhile_sublist
    (l := skipLayout ((expect? "...".toList (skipLayout t₁)).getD (skipLayout t₁)))
    isNameChar).length_le
  omega

theorem length_typeParameter? {standalone : Bool} {t rest : Text} {spec : TypeSpec}
    (h : typeParameter? standalone t = some (spec, rest)) : rest.length < t.length := by
  simp only [typeParameter?, Option.orElse_eq_orElse, Option.orElse_eq_or, Option.or_eq_some_iff,
    Option.filter_eq_some_iff] at h
  rcases h with ⟨h, _⟩ | ⟨_, h, _⟩
  · exact length_typeWithDefault? h
  · exact length_typeWithoutDefault? h

theorem length_templateParameter? {standalone : Bool} {nested : Reader (List Parameter)}
    {t rest : Text} {p : Parameter}
    (h : templateParameter? standalone nested t = some (p, rest)) : rest.length < t.length := by
  simp only [templateParameter?, Option.bind_eq_bind, Option.bind_eq_some_iff] at h
  obtain ⟨⟨params, t₁⟩, h₁, ⟨spec, t₂⟩, h₂, h⟩ := h
  simp only [Option.some.injEq, Prod.mk.injEq] at h
  obtain ⟨_, rfl⟩ := h
  have l₁ := nested.shorter h₁
  have l₂ := length_skipLayout_le t₁
  have l₃ := length_typeParameter? h₂
  simp only at l₃
  omega

theorem length_nonTypeParameter? {standalone : Bool} {t rest : Text} {p : Parameter}
    (h : nonTypeParameter? standalone t = some (p, rest)) : rest.length < t.length := by
  simp only [nonTypeParameter?, Option.map_eq_some_iff, Option.orElse_eq_orElse,
    Option.orElse_eq_or, Option.or_eq_some_iff, Option.filter_eq_some_iff] at h
  obtain ⟨⟨run, rest'⟩, h, heq⟩ := h
  simp only [Prod.mk.injEq] at heq
  obtain ⟨_, rfl⟩ := heq
  rcases h with ⟨h, _⟩ | ⟨_, h, _⟩
  · exact length_filledRun? h
  · exact length_looseRun? h

theorem length_parameter? {standalone : Bool} {nested : Reader (List Parameter)} {t rest : Text}
    {p : Parameter} (h : parameter? standalone nested t = some (p, rest)) :
    rest.length < t.length := by
  simp only [parameter?, Option.orElse_eq_orElse, Option.orElse_eq_or, Option.or_eq_some_iff] at h
  rcases h with h | ⟨_, h | ⟨_, h⟩⟩
  · obtain ⟨⟨spec, rest'⟩, h', heq⟩ := Option.map_eq_some_iff.1 h
    simp only [Prod.mk.injEq] at heq
    obtain ⟨_, rfl⟩ := heq
    exact length_typeParameter? h'
  · exact length_templateParameter? h
  · exact length_nonTypeParameter? h

end Parameter

end TemplateFolding
