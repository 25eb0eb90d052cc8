import Mathlib.Data.List.TakeWhile
import TemplateFolding.Proofs.PrintedLists

/-!
# The grammar of parameter lists

What a `template<...>` list may look like is given by a grammar, as relations between a text and
what it declares:

```
list    := "template" gap "<" gap [ item ( gap "," gap item )* ] gap ">"
item    := type | list gap type | value
type    := word name "=" gap run | word gap [ "..." ] gap name
word    := "typename" | "class", not followed by an identifier character
```

A name has none of `,`, `=`, `<` and `>`. The run of a default has closed angle groups. A value has
closed groups of both kinds or else no `,` and `>` at all. Names, defaults and values are recorded
without the blanks around them.

The relations do not mention the reader. The main result is that every declaration it reads is
derived from the grammar, with exactly the parameters it returns.
-/

namespace TemplateFolding

open Text

/-! ## Layout -/

namespace Text

/-- Text that may stand between two tokens. -/
def IsGap (u : Text) : Prop :=
  ∀ c ∈ u, isLayout c

/-- Layout in front of a text is skipped. -/
lemma skipLayout_append {gap : Text} (h : gap.IsGap) (t : Text) :
    skipLayout (gap ++ t) = skipLayout t :=
  List.dropWhile_append_of_pos h

/-- Skipping layout takes a gap off the front. -/
lemma exists_gap (t : Text) : ∃ gap : Text, gap.IsGap ∧ t = gap ++ skipLayout t := by
  refine ⟨t.takeWhile isLayout, ?_, List.takeWhile_append_dropWhile.symm⟩
  intro c hc
  exact List.mem_takeWhile_imp hc

/-- Behind skipped layout stands no layout. -/
lemma head?_skipLayout (t : Text) : ∀ c ∈ (skipLayout t).head?, isLayout c = false := by
  intro c hc
  have h := List.head?_dropWhile_not isLayout t
  rw [Option.mem_def] at hc
  rw [skipLayout] at hc
  rw [hc] at h
  exact h

/-- Where no layout stands in front there is nothing to skip. -/
lemma skipLayout_eq_self {t : Text} (h : ∀ c ∈ t.head?, isLayout c = false) : skipLayout t = t := by
  cases t with
  | nil => rfl
  | cons c cs => exact List.dropWhile_cons_of_neg (by simp [h c rfl])

/-- The layout in front of a text is trimmed anyway. -/
lemma trim_skipLayout (t : Text) : trim (skipLayout t) = trim t := by
  have hstart : trimStart (skipLayout t) = trimStart t := by
    induction t with
    | nil => rfl
    | cons c cs ih =>
      by_cases hc : isLayout c
      · rw [skipLayout, List.dropWhile_cons_of_pos hc, trimStart, trimStart,
          List.dropWhile_cons_of_pos (isBlank_of_isLayout hc)]
        exact ih
      · rw [skipLayout, List.dropWhile_cons_of_neg hc]
  rw [trim, hstart, trim]

end Text

/-! ## The grammar -/

namespace Parameter

/-- The keywords of a type parameter. -/
def IsTypeWord (word : Text) : Prop :=
  word = "typename".toList ∨ word = "class".toList

/-- Whether a word in front of the text is not continued by it. -/
def EndsWord (t : Text) : Prop :=
  ∀ c ∈ t.head?, isIdentifier c = false

/-- The text is a type parameter that declares `spec`. -/
inductive DerivesType : Text → TypeSpec → Prop where
  | withDefault {word name gap run : Text} : IsTypeWord word → EndsWord name →
      (∀ c ∈ name, isNameChar c) → gap.IsGap → ClosedGroups false run → trim run ≠ [] →
      DerivesType (word ++ name ++ '=' :: gap ++ run) ⟨false, trim name, trim run⟩
  | pack {word gap gap' name : Text} : IsTypeWord word → gap.IsGap → gap'.IsGap →
      (∀ c ∈ name, isNameChar c) →
      DerivesType (word ++ gap ++ "...".toList ++ gap' ++ name) ⟨true, trim name, []⟩
  /-- The dots of a pack are not taken for the beginning of a name. -/
  | single {word gap name : Text} : IsTypeWord word → EndsWord (gap ++ name) → gap.IsGap →
      (∀ c ∈ name, isNameChar c) → (∀ c ∈ name.head?, isLayout c = false) →
      ¬"...".toList <+: name → DerivesType (word ++ gap ++ name) ⟨false, trim name, []⟩

/-- The text is a non-type parameter, and not a type parameter. -/
structure IsValueRun (u : Text) : Prop where
  filled : trim u ≠ []
  start : ∀ c ∈ u.head?, isLayout c = false
  run : ClosedGroups true u ∨ ∀ c ∈ u, isEnd c = false
  not_type : ∀ spec, ¬DerivesType u spec

mutual

/-- The text is the parameter. -/
inductive Derives : Text → Parameter → Prop where
  | type {u : Text} {spec : TypeSpec} : DerivesType u spec → Derives u (.type spec)
  | template {u gap v : Text} {ps : List Parameter} {spec : TypeSpec} : DerivesList u ps →
      gap.IsGap → DerivesType v spec → Derives (u ++ gap ++ v) (.template ps spec)
  | nonType {u : Text} : IsValueRun u → Derives u (.nonType (trim u))

/-- The text is the parameters with commas between them. -/
inductive DerivesItems : Text → List Parameter → Prop where
  | single {u : Text} {p : Parameter} : Derives u p → DerivesItems u [p]
  | cons {u gap gap' v : Text} {p : Parameter} {ps : List Parameter} : Derives u p → gap.IsGap →
      gap'.IsGap → DerivesItems v ps → DerivesItems (u ++ gap ++ ',' :: gap' ++ v) (p :: ps)

/-- The text is the list of the parameters, from the keyword through the closing bracket. -/
inductive DerivesList : Text → List Parameter → Prop where
  | empty {gap gap' : Text} : gap.IsGap → gap'.IsGap →
      DerivesList (keyword ++ gap ++ '<' :: gap' ++ ['>']) []
  | filled {gap gap' u gap'' : Text} {ps : List Parameter} : gap.IsGap → gap'.IsGap →
      DerivesItems u ps → gap''.IsGap →
      DerivesList (keyword ++ gap ++ '<' :: gap' ++ u ++ gap'' ++ ['>']) ps

end

/-! ## Runs with closed groups -/

/-- The text closes the open brackets one after the other and goes on with closed groups. -/
inductive Closes (grouped : Bool) : Nesting → Text → Prop where
  | done {u : Text} : ClosedGroups grouped u → Closes grouped ⟨0, 0⟩ u
  | angle {a : Nat} {u v : Text} : InAngles u → Closes grouped ⟨a, 0⟩ v →
      Closes grouped ⟨a + 1, 0⟩ (u ++ '>' :: v)
  | paren {a k : Nat} {u v : Text} : InParens u → Closes grouped ⟨a, k⟩ v →
      Closes grouped ⟨a, k + 1⟩ (u ++ ')' :: v)

section Closes

variable {grouped : Bool} {a k : Nat} {c : Char} {u t run rest : Text}

/-- A character inside parentheses. -/
lemma Closes.cons_paren (h : Closes grouped (Nesting.push grouped ⟨a, k + 1⟩ c) u) :
    Closes grouped ⟨a, k + 1⟩ (c :: u) := by
  by_cases hopen : c = '('
  · have hpush : Nesting.push grouped ⟨a, k + 1⟩ c = ⟨a, k + 1 + 1⟩ := by simp [Nesting.push, hopen]
    rw [hpush] at h
    -- the group that `c` opens is closed first, then the one around it
    cases h with
    | paren hu h =>
      cases h with
      | paren hv h =>
        rw [hopen, ← List.cons_append, ← List.cons_append, ← List.append_assoc]
        exact .paren (.parens hu hv) h
  · by_cases hclose : c = ')'
    · have hpush : Nesting.push grouped ⟨a, k + 1⟩ c = ⟨a, k⟩ := by simp [Nesting.push, hclose]
      rw [hpush] at h
      rw [hclose]
      exact .paren .nil h
    · have hpush : Nesting.push grouped ⟨a, k + 1⟩ c = ⟨a, k + 1⟩ := by
        simp [Nesting.push, hopen, hclose]
      rw [hpush] at h
      cases h with
      | paren hu h => exact .paren (.char hopen hclose hu) h

/-- A character inside angle brackets. -/
lemma Closes.cons_angle (h : Closes grouped (Nesting.push grouped ⟨a + 1, 0⟩ c) u) :
    Closes grouped ⟨a + 1, 0⟩ (c :: u) := by
  by_cases hopen : c = '<'
  · have hpush : Nesting.push grouped ⟨a + 1, 0⟩ c = ⟨a + 1 + 1, 0⟩ := by simp [Nesting.push, hopen]
    rw [hpush] at h
    cases h with
    | angle hu h =>
      cases h with
      | angle hv h =>
        rw [hopen, ← List.cons_append, ← List.cons_append, ← List.append_assoc]
        exact .angle (.angles hu hv) h
  · by_cases hclose : c = '>'
    · have hpush : Nesting.push grouped ⟨a + 1, 0⟩ c = ⟨a, 0⟩ := by simp [Nesting.push, hclose]
      rw [hpush] at h
      rw [hclose]
      exact .angle .nil h
    · by_cases hparen : c = '('
      · have hpush : Nesting.push grouped ⟨a + 1, 0⟩ c = ⟨a + 1, 0 + 1⟩ := by
          simp [Nesting.push, hparen]
        rw [hpush] at h
        cases h with
        | paren hu h =>
          cases h with
          | angle hv h =>
            rw [hparen, ← List.cons_append, ← List.cons_append, ← List.append_assoc]
            exact .angle (.parens hu hv) h
      · have hpush : Nesting.push grouped ⟨a + 1, 0⟩ c = ⟨a + 1, 0⟩ := by
          simp [Nesting.push, hopen, hclose, hparen]
        rw [hpush] at h
        cases h with
        | angle hu h => exact .angle (.char hopen hclose hparen hu) h

/-- A character outside all groups that does not end the run. -/
lemma Closes.cons_none (hc : isEnd c = false) (h : Closes grouped (Nesting.push grouped ⟨0, 0⟩ c) u) :
    Closes grouped ⟨0, 0⟩ (c :: u) := by
  have hclose : c ≠ '>' := by
    rintro rfl
    simp [isEnd] at hc
  by_cases hopen : c = '<'
  · have hpush : Nesting.push grouped ⟨0, 0⟩ c = ⟨0 + 1, 0⟩ := by simp [Nesting.push, hopen]
    rw [hpush] at h
    cases h with
    | angle hu h =>
      cases h with
      | done hv =>
        rw [hopen]
        exact .done (.angles hu hv)
  · by_cases hparen : c = '(' ∧ grouped = true
    · have hpush : Nesting.push grouped ⟨0, 0⟩ c = ⟨0, 0 + 1⟩ := by
        simp [Nesting.push, hparen.1, hparen.2]
      rw [hpush] at h
      cases h with
      | paren hu h =>
        cases h with
        | done hv =>
          rw [hparen.1]
          exact .done (.parens hparen.2 hu hv)
    · have hpush : Nesting.push grouped ⟨0, 0⟩ c = ⟨0, 0⟩ := by
        have hgroup : ¬(c = '(' ∧ (grouped = true ∨ (0 : Nat) ≠ 0)) := by
          simpa using hparen
        simp only [Nesting.push, if_pos, if_neg hopen, if_neg hclose, if_neg hgroup]
      rw [hpush] at h
      cases h with
      | done hu => exact .done (.char hc hopen (fun hg hcp => hparen ⟨hcp, hg⟩) hu)

/-- A run that is read closes the brackets that were open, and stops at the end of a parameter or
of the text. -/
lemma closedRun_closes {n : Nesting} (h : closedRun grouped n t = some (run, rest)) :
    Closes grouped n run ∧ ∀ c ∈ rest.head?, isEnd c := by
  induction t generalizing n run rest with
  | nil =>
    rw [closedRun] at h
    split at h
    · rename_i hn
      simp only [Option.some.injEq, Prod.mk.injEq] at h
      rw [← h.1, ← h.2, hn]
      exact ⟨.done .nil, by simp⟩
    · simp at h
  | cons c cs ih =>
    rw [closedRun] at h
    split at h
    · rename_i hstop
      simp only [Option.some.injEq, Prod.mk.injEq] at h
      rw [← h.1, ← h.2, hstop.1]
      exact ⟨.done .nil, by simpa using hstop.2⟩
    · rename_i hgo
      obtain ⟨⟨run', rest'⟩, hrun, heq⟩ := Option.map_eq_some_iff.1 h
      simp only [Prod.mk.injEq] at heq
      rw [← heq.1, ← heq.2]
      obtain ⟨hcloses, hrest⟩ := ih hrun
      refine ⟨?_, hrest⟩
      -- the brackets open at `c` decide which group the character belongs to
      obtain ⟨a, k⟩ := n
      cases k with
      | succ k => exact hcloses.cons_paren
      | zero =>
        cases a with
        | succ a => exact hcloses.cons_angle
        | zero => exact hcloses.cons_none (by simpa [Nesting.none] using hgo)

/-- A run that is read has closed groups, is not blank and stops at the end of a parameter or of
the text. -/
lemma filledRun?_closed (h : filledRun? grouped t = some (run, rest)) :
    t = run ++ rest ∧ ClosedGroups grouped run ∧ trim run ≠ [] ∧ ∀ c ∈ rest.head?, isEnd c := by
  rw [filledRun?] at h
  split at h
  · rename_i run' rest' hrun
    split at h
    · simp at h
    · rename_i hfilled
      simp only [Option.some.injEq, Prod.mk.injEq] at h
      rw [← h.1, ← h.2]
      obtain ⟨hcloses, hrest⟩ := closedRun_closes hrun
      cases hcloses with
      | done hclosed => exact ⟨closedRun_append hrun, hclosed, by simpa using hfilled, hrest⟩
  · simp at h

end Closes

section Types

variable {t rest u word name : Text} {spec : TypeSpec} {c : Char}

/-! ## Type parameters are derived -/

lemma EndsWord.left {u v : Text} (h : EndsWord (u ++ v)) : EndsWord u := by
  intro c hc
  apply h c
  rw [List.head?_append, Option.mem_def.1 hc]
  rfl

lemma isLayout_of_isNameChar_eq_false (h : isNameChar c = false) : isLayout c = false := by
  simp only [isNameChar, Bool.not_eq_false', Bool.or_eq_true, beq_iff_eq] at h
  rcases h with ((rfl | rfl) | rfl) | rfl <;> decide

/-- Where a name or a run stops, a parameter can end only at once. -/
lemma exists_end (hend : atEnd false rest) (hrest : ∀ c ∈ rest.head?, isNameChar c = false) :
    ∃ c rest', rest = c :: rest' ∧ isEnd c := by
  rw [atEnd, skipLayout_eq_self fun c hc => isLayout_of_isNameChar_eq_false (hrest c hc)] at hend
  cases rest with
  | nil => simp at hend
  | cons c rest' => exact ⟨c, rest', rfl, hend⟩

/-- A keyword of types is read where it stands, if it is not continued. -/
lemma typeKeyword?_word (h : typeKeyword? t = some rest) :
    ∃ word, IsTypeWord word ∧ t = word ++ rest ∧ EndsWord rest := by
  have hword : ∀ {r}, (expect? "typename".toList t <|> expect? "class".toList t) = some r →
      ∃ word, IsTypeWord word ∧ t = word ++ r := by
    intro r hr
    simp only [Option.orElse_eq_orElse, Option.orElse_eq_or, Option.or_eq_some_iff] at hr
    rcases hr with hr | ⟨-, hr⟩
    · exact ⟨_, Or.inl rfl, expect?_eq_some_iff.1 hr⟩
    · exact ⟨_, Or.inr rfl, expect?_eq_some_iff.1 hr⟩
  rw [typeKeyword?] at h
  split at h
  · simp at h
  · rename_i hr
    rw [← Option.some.inj h]
    obtain ⟨word, hw, ht⟩ := hword hr
    exact ⟨word, hw, ht, by simp [EndsWord]⟩
  · rename_i hr
    split at h
    · simp at h
    · rename_i hc
      rw [← Option.some.inj h]
      obtain ⟨word, hw, ht⟩ := hword hr
      exact ⟨word, hw, ht, by simpa [EndsWord] using hc⟩

/-- A name is read as far as it goes. -/
lemma exists_name (t : Text) : ∃ name : Text, (∀ c ∈ name, isNameChar c) ∧
    name = t.takeWhile isNameChar ∧ t = name ++ t.dropWhile isNameChar ∧
    ∀ c ∈ (t.dropWhile isNameChar).head?, isNameChar c = false := by
  refine ⟨t.takeWhile isNameChar, fun c hc => List.mem_takeWhile_imp hc, rfl,
    List.takeWhile_append_dropWhile.symm, ?_⟩
  intro c hc
  have h := List.head?_dropWhile_not isNameChar t
  rw [Option.mem_def.1 hc] at h
  exact h

/-- A type parameter that is read with a default is derived, and ends where a parameter can end. -/
lemma typeWithDefault?_derives (h : typeWithDefault? t = some (spec, rest)) :
    ∃ u, t = u ++ rest ∧ DerivesType u spec ∧ ∀ c ∈ rest.head?, isEnd c := by
  simp only [typeWithDefault?, Option.bind_eq_bind, Option.bind_eq_some_iff] at h
  obtain ⟨t₁, hkey, h⟩ := h
  obtain ⟨word, hword, ht, hends⟩ := typeKeyword?_word hkey
  obtain ⟨name, hchars, htake, hname, -⟩ := exists_name t₁
  split at h
  · rename_i t₂ hdrop
    obtain ⟨⟨run, rest'⟩, hrun, h⟩ := Option.bind_eq_some_iff.1 h
    simp only [Option.some.injEq, Prod.mk.injEq] at h
    obtain ⟨gap, hgap, ht₂⟩ := exists_gap t₂
    obtain ⟨hsplit, hclosed, hfilled, hstop⟩ := filledRun?_closed hrun
    rw [hdrop] at hname
    rw [← h.1, ← h.2, ← htake]
    rw [hname] at hends
    refine ⟨word ++ name ++ '=' :: gap ++ run, ?_,
      .withDefault hword hends.left hchars hgap hclosed hfilled, hstop⟩
    calc t = word ++ (name ++ '=' :: (gap ++ skipLayout t₂)) := by rw [ht, hname, ← ht₂]
      _ = word ++ name ++ '=' :: gap ++ run ++ rest' := by simp [hsplit]
  · simp at h

/-- A type parameter that is read without a default is derived, and its name is not continued. -/
lemma typeWithoutDefault?_derives (h : typeWithoutDefault? t = some (spec, rest)) :
    ∃ u, t = u ++ rest ∧ DerivesType u spec ∧ ∀ c ∈ rest.head?, isNameChar c = false := by
  simp only [typeWithoutDefault?, Option.bind_eq_bind, Option.bind_eq_some_iff] at h
  obtain ⟨t₁, hkey, h⟩ := h
  obtain ⟨word, hword, ht, hends⟩ := typeKeyword?_word hkey
  obtain ⟨gap, hgap, ht₁⟩ := exists_gap t₁
  simp only [Option.some.injEq, Prod.mk.injEq] at h
  cases hdots : expect? "...".toList (skipLayout t₁) with
  | none =>
    rw [hdots, Option.isSome_none, Option.getD_none, skipLayout_eq_self (head?_skipLayout t₁)] at h
    obtain ⟨name, hchars, htake, hname, hstop⟩ := exists_name (skipLayout t₁)
    rw [← h.1, ← h.2, ← htake]
    have hsplit : t₁ = gap ++ name ++ (skipLayout t₁).dropWhile isNameChar := by
      rw [List.append_assoc, ← hname, ← ht₁]
    refine ⟨word ++ gap ++ name, ?_, .single hword ?_ hgap hchars ?_ ?_, hstop⟩
    · rw [ht, List.append_assoc, List.append_assoc, ← hname, ← ht₁]
    · rw [hsplit] at hends
      exact hends.left
    · intro c hc
      apply head?_skipLayout t₁ c
      rw [hname, List.head?_append, Option.mem_def.1 hc]
      rfl
    · rintro ⟨v, hv⟩
      -- otherwise the dots would have been found in front of the name
      rw [hname, ← hv, List.append_assoc, expect?_append] at hdots
      simp at hdots
  | some t₂ =>
    rw [hdots, Option.isSome_some, Option.getD_some] at h
    obtain ⟨gap', hgap', ht₂⟩ := exists_gap t₂
    obtain ⟨name, hchars, htake, hname, hstop⟩ := exists_name (skipLayout t₂)
    rw [← h.1, ← h.2, ← htake]
    refine ⟨word ++ gap ++ "...".toList ++ gap' ++ name, ?_, .pack hword hgap hgap' hchars, hstop⟩
    calc t = word ++ (gap ++ ("...".toList ++ (gap' ++ skipLayout t₂))) := by
          rw [ht, ← ht₂, ← expect?_eq_some_iff.1 hdots, ← ht₁]
      _ = word ++ gap ++ "...".toList ++ gap' ++ name ++ (skipLayout t₂).dropWhile isNameChar := by
          simp only [List.append_assoc, ← hname]

/-- A type parameter that is read is derived, and the end of a parameter follows it. -/
lemma typeParameter?_derives (h : typeParameter? false t = some (spec, rest)) :
    ∃ u c rest', rest = c :: rest' ∧ isEnd c ∧ t = u ++ c :: rest' ∧ DerivesType u spec := by
  simp only [typeParameter?, Option.orElse_eq_orElse, Option.orElse_eq_or, Option.or_eq_some_iff,
    Option.filter_eq_some_iff] at h
  rcases h with ⟨h, hend⟩ | ⟨-, h, hend⟩
  · obtain ⟨u, ht, hu, hstop⟩ := typeWithDefault?_derives h
    obtain ⟨c, rest', rfl, hc⟩ := exists_end hend fun c hc => (isNameChar_of_isEnd (hstop c hc)).1
    exact ⟨u, c, rest', rfl, hc, ht, hu⟩
  · obtain ⟨u, ht, hu, hstop⟩ := typeWithoutDefault?_derives h
    obtain ⟨c, rest', rfl, hc⟩ := exists_end hend hstop
    exact ⟨u, c, rest', rfl, hc, ht, hu⟩

/-! ## Derived type parameters are read -/

/-- A keyword of types is read if it is not continued. -/
lemma typeKeyword?_of_isTypeWord (hword : IsTypeWord word) (hends : EndsWord t) :
    typeKeyword? (word ++ t) = some t := by
  rcases hword with rfl | rfl
  · exact TypeSpec.typeKeyword?_typename hends
  · have hother : expect? "typename".toList ("class".toList ++ t) = none := rfl
    rw [typeKeyword?, hother, expect?_append]
    cases t with
    | nil => rfl
    | cons c cs =>
      show (if isIdentifier c then none else some (c :: cs)) = some (c :: cs)
      rw [if_neg (by simp [hends c rfl])]

/-- Without the layout in front the groups of a text are still closed. -/
lemma ClosedGroups.skipLayout {grouped : Bool} (h : ClosedGroups grouped u) :
    ClosedGroups grouped (skipLayout u) := by
  induction h with
  | nil => exact .nil
  | @char c u h₁ h₂ h₃ hu ih =>
    by_cases hc : isLayout c
    · rw [Text.skipLayout, List.dropWhile_cons_of_pos hc]
      exact ih
    · rw [Text.skipLayout, List.dropWhile_cons_of_neg hc]
      exact .char h₁ h₂ h₃ hu
  | angles hu hv => exact .angles hu hv
  | parens hg hu hv => exact .parens hg hu hv

/-- Layout at the front of a text is skipped without regard to what ends the parameter. -/
lemma skipLayout_append_end (hc : isEnd c) (u rest : Text) :
    Text.skipLayout (u ++ c :: rest) = Text.skipLayout u ++ c :: rest := by
  obtain ⟨gap, hgap, hu⟩ := exists_gap u
  rw [hu, List.append_assoc, skipLayout_append hgap, skipLayout_append hgap,
    skipLayout_eq_self (head?_skipLayout u)]
  apply skipLayout_eq_self
  intro d hd
  rw [List.head?_append, Option.mem_def] at hd
  cases hs : (Text.skipLayout u).head? with
  | none =>
    rw [hs] at hd
    have hdc : c = d := by simpa using hd
    rw [← hdc]
    exact isLayout_of_isEnd hc
  | some e =>
    rw [hs] at hd
    have hed : e = d := by simpa using hd
    rw [← hed]
    exact head?_skipLayout u e hs

lemma EndsWord.append {u v : Text} (hu : EndsWord u) (hv : u = [] → EndsWord v) :
    EndsWord (u ++ v) := by
  cases u with
  | nil => exact hv rfl
  | cons d ds => exact hu

lemma endsWord_of_isEnd (hc : isEnd c) (rest : Text) : EndsWord (c :: rest) := by
  intro d hd
  have hcd : c = d := by simpa using hd
  rw [← hcd]
  simp only [isEnd, Bool.or_eq_true, beq_iff_eq] at hc
  rcases hc with rfl | rfl <;> decide

lemma endsWord_of_isGap {gap t : Text} (hgap : gap.IsGap) (ht : EndsWord t) : EndsWord (gap ++ t) := by
  refine EndsWord.append ?_ fun _ => ht
  intro c hc
  by_contra hid
  have hlayout := hgap c (List.mem_of_mem_head? hc)
  rw [isLayout_of_isIdentifier (by simpa using hid)] at hlayout
  simp at hlayout

/-- A name is read up to the first character that does not belong to it. -/
lemma takeWhile_name (hchars : ∀ d ∈ name, isNameChar d) (hc : isNameChar c = false) (rest : Text) :
    (name ++ c :: rest).takeWhile isNameChar = name ∧
      (name ++ c :: rest).dropWhile isNameChar = c :: rest := by
  rw [List.takeWhile_append_of_pos hchars, List.dropWhile_append_of_pos hchars,
    List.takeWhile_cons_of_neg (by simp [hc]), List.dropWhile_cons_of_neg (by simp [hc])]
  simp

/-- Layout inside a name belongs to it. -/
lemma isNameChar_of_isLayout (h : isLayout c) : isNameChar c := by
  by_contra hn
  rw [isLayout_of_isNameChar_eq_false (by simpa using hn)] at h
  simp at h

/-- Without the sign of a default no default is read. -/
lemma typeWithDefault?_eq_none (hword : IsTypeWord word) (hends : EndsWord name)
    (hchars : ∀ d ∈ name, isNameChar d) (hc : isEnd c) (rest : Text) :
    typeWithDefault? (word ++ (name ++ c :: rest)) = none := by
  obtain ⟨hstop, hsign⟩ := isNameChar_of_isEnd hc
  have hkey := typeKeyword?_of_isTypeWord hword
    (hends.append (v := c :: rest) fun _ => endsWord_of_isEnd hc rest)
  rw [typeWithDefault?, hkey, Option.bind_eq_bind, Option.bind_some, (takeWhile_name hchars hstop rest).2]
  split
  · rename_i t' heq
    exact absurd (List.cons.inj heq).1 hsign
  · rfl

/-- A keyword, a name and the run of a default are read. -/
lemma typeWithDefault?_run {gap run : Text} (hword : IsTypeWord word) (hends : EndsWord name)
    (hchars : ∀ d ∈ name, isNameChar d) (hgap : gap.IsGap) (hclosed : ClosedGroups false run)
    (hfilled : trim run ≠ []) (hc : isEnd c) (rest : Text) :
    typeWithDefault? (word ++ (name ++ '=' :: (gap ++ (run ++ c :: rest)))) =
      some (⟨false, trim name, trim run⟩, c :: rest) := by
  have hkey := typeKeyword?_of_isTypeWord hword
    (hends.append (v := '=' :: (gap ++ (run ++ c :: rest))) fun _ => by simp [EndsWord, isIdentifier])
  have hskip : Text.skipLayout (gap ++ (run ++ c :: rest)) = Text.skipLayout run ++ c :: rest := by
    rw [skipLayout_append hgap, skipLayout_append_end hc]
  have hrun := hclosed.skipLayout.filledRun? (by rwa [trim_skipLayout]) hc rest
  obtain ⟨htake, hdrop⟩ :=
    takeWhile_name hchars (show isNameChar '=' = false by decide) (gap ++ (run ++ c :: rest))
  rw [typeWithDefault?, hkey, Option.bind_eq_bind, Option.bind_some, hdrop]
  simp only [hskip, hrun, htake, trim_skipLayout, Option.bind_eq_bind, Option.bind_some]

/-- A keyword, the dots of a pack and a name are read. -/
lemma typeWithoutDefault?_dots {gap gap' : Text} (hword : IsTypeWord word) (hgap : gap.IsGap)
    (hgap' : gap'.IsGap) (hchars : ∀ d ∈ name, isNameChar d) (hc : isEnd c) (rest : Text) :
    typeWithoutDefault? (word ++ (gap ++ ("...".toList ++ (gap' ++ (name ++ c :: rest))))) =
      some (⟨true, trim name, []⟩, c :: rest) := by
  have hkey := typeKeyword?_of_isTypeWord hword (endsWord_of_isGap hgap
    (show EndsWord ("...".toList ++ (gap' ++ (name ++ c :: rest))) by simp [EndsWord, isIdentifier]))
  have hskip : Text.skipLayout (gap ++ ("...".toList ++ (gap' ++ (name ++ c :: rest)))) =
      "...".toList ++ (gap' ++ (name ++ c :: rest)) := by
    rw [skipLayout_append hgap]
    exact List.dropWhile_cons_of_neg (by decide)
  have hskip' : Text.skipLayout (gap' ++ (name ++ c :: rest)) = Text.skipLayout name ++ c :: rest := by
    rw [skipLayout_append hgap', skipLayout_append_end hc]
  have hname : ∀ d ∈ Text.skipLayout name, isNameChar d := fun d hd =>
    hchars d ((List.dropWhile_suffix _).subset hd)
  obtain ⟨htake, hdrop⟩ := takeWhile_name hname (isNameChar_of_isEnd hc).1 rest
  rw [typeWithoutDefault?, hkey, Option.bind_eq_bind, Option.bind_some]
  simp only [hskip, expect?_append, Option.getD_some, Option.isSome_some, hskip', htake, hdrop,
    trim_skipLayout]

/-- A keyword and a name that does not begin with dots are read. -/
lemma typeWithoutDefault?_name {gap : Text} (hword : IsTypeWord word) (hends : EndsWord (gap ++ name))
    (hgap : gap.IsGap) (hchars : ∀ d ∈ name, isNameChar d)
    (hhead : ∀ d ∈ name.head?, isLayout d = false) (hdots : ¬"...".toList <+: name) (hc : isEnd c)
    (rest : Text) :
    typeWithoutDefault? (word ++ (gap ++ name ++ c :: rest)) =
      some (⟨false, trim name, []⟩, c :: rest) := by
  have hkey := typeKeyword?_of_isTypeWord hword
    (hends.append (v := c :: rest) fun _ => endsWord_of_isEnd hc rest)
  have hskip : Text.skipLayout (gap ++ name ++ c :: rest) = name ++ c :: rest := by
    rw [skipLayout_append_end hc, skipLayout_append hgap, skipLayout_eq_self hhead]
  have hskip' : Text.skipLayout (name ++ c :: rest) = name ++ c :: rest := by
    rw [skipLayout_append_end hc, skipLayout_eq_self hhead]
  have hnodots : expect? "...".toList (name ++ c :: rest) = none := by
    apply expect?_append_eq_none _ hdots
    intro hmem
    have hdot : c = '.' := by simpa using hmem
    rw [hdot] at hc
    exact absurd hc (by decide)
  obtain ⟨htake, hdrop⟩ := takeWhile_name hchars (isNameChar_of_isEnd hc).1 rest
  rw [typeWithoutDefault?, hkey, Option.bind_eq_bind, Option.bind_some]
  simp only [hskip, hnodots, Option.getD_none, Option.isSome_none, hskip', htake, hdrop]

/-- A derived type parameter is read in front of the end of a parameter. -/
theorem DerivesType.typeParameter? (h : DerivesType u spec) (hc : isEnd c) (rest : Text) :
    typeParameter? false (u ++ c :: rest) = some (spec, c :: rest) := by
  unfold Parameter.typeParameter?
  cases h with
  | @withDefault word name gap run hword hends hchars hgap hclosed hfilled =>
    have hread := typeWithDefault?_run hword hends hchars hgap hclosed hfilled hc rest
    have happend : word ++ name ++ '=' :: gap ++ run ++ c :: rest =
        word ++ (name ++ '=' :: (gap ++ (run ++ c :: rest))) := by simp
    rw [happend, hread, filter_atEnd _ hc]
    rfl
  | @pack word gap gap' name hword hgap hgap' hchars =>
    -- up to the end of the parameter everything is a name, so there is no sign of a default
    have hall : ∀ d ∈ gap ++ ("...".toList ++ (gap' ++ name)), isNameChar d := by
      intro d hd
      simp only [List.mem_append] at hd
      rcases hd with hd | hd | hd | hd
      · exact isNameChar_of_isLayout (hgap d hd)
      · have hdot : d = '.' := by simpa using hd
        rw [hdot]
        decide
      · exact isNameChar_of_isLayout (hgap' d hd)
      · exact hchars d hd
    have hnone := typeWithDefault?_eq_none hword (endsWord_of_isGap hgap
      (show EndsWord ("...".toList ++ (gap' ++ name)) by simp [EndsWord, isIdentifier])) hall hc rest
    have hread := typeWithoutDefault?_dots hword hgap hgap' hchars hc rest
    simp only [List.append_assoc] at hnone hread ⊢
    rw [hnone, hread, filter_atEnd _ hc]
    rfl
  | @single word gap name hword hends hgap hchars hhead hdots =>
    have hall : ∀ d ∈ gap ++ name, isNameChar d := by
      intro d hd
      rcases List.mem_append.1 hd with hd | hd
      · exact isNameChar_of_isLayout (hgap d hd)
      · exact hchars d hd
    have hnone := typeWithDefault?_eq_none hword hends hall hc rest
    have hread := typeWithoutDefault?_name hword hends hgap hchars hhead hdots hc rest
    simp only [List.append_assoc] at hnone hread ⊢
    rw [hnone, hread, filter_atEnd _ hc]
    rfl

end Types

/-! ## Parameters and lists are derived -/

section Lists

variable {t rest : Text} {p : Parameter} {ps : List Parameter} {depth : Nat}

/-- A value that is read is a run with closed groups or a loose one, and the end of a parameter
follows it. -/
lemma nonTypeParameter?_run (h : nonTypeParameter? false t = some (p, rest)) :
    ∃ u c rest', rest = c :: rest' ∧ isEnd c ∧ t = u ++ c :: rest' ∧ p = .nonType (trim u) ∧
      trim u ≠ [] ∧ (ClosedGroups true u ∨ ∀ c ∈ u, isEnd c = false) := by
  simp only [nonTypeParameter?, Option.map_eq_some_iff, Option.orElse_eq_orElse,
    Option.orElse_eq_or, Option.or_eq_some_iff, Option.filter_eq_some_iff] at h
  obtain ⟨⟨run, rest₀⟩, h, heq⟩ := h
  simp only [Prod.mk.injEq] at heq
  rw [← heq.1, ← heq.2]
  rcases h with ⟨h, hend⟩ | ⟨-, h, hend⟩
  · obtain ⟨ht, hclosed, hfilled, hstop⟩ := filledRun?_closed h
    obtain ⟨c, rest', rfl, hc⟩ := exists_end hend fun c hc => (isNameChar_of_isEnd (hstop c hc)).1
    exact ⟨run, c, rest', rfl, hc, ht, rfl, hfilled, Or.inl hclosed⟩
  · rw [looseRun?] at h
    split at h
    · simp at h
    · rename_i hfilled
      simp only [Option.some.injEq, Prod.mk.injEq] at h
      have hloose : ∀ c ∈ run, isEnd c = false := by
        intro c hc
        rw [← h.1] at hc
        simpa using List.mem_takeWhile_imp hc
      have hstop : ∀ c ∈ rest₀.head?, isEnd c := by
        intro c hc
        have hnot := List.head?_dropWhile_not (!isEnd ·) t
        rw [← h.2] at hc
        rw [Option.mem_def.1 hc] at hnot
        simpa using hnot
      have ht : t = run ++ rest₀ := by
        rw [← h.1, ← h.2]
        exact List.takeWhile_append_dropWhile.symm
      obtain ⟨c, rest', rfl, hc⟩ := exists_end hend fun c hc => (isNameChar_of_isEnd (hstop c hc)).1
      rw [h.1] at hfilled
      exact ⟨run, c, rest', rfl, hc, ht, rfl, by simpa using hfilled, Or.inr hloose⟩

/-- What the reader takes is derived, with at most `depth` lists nested. -/
def ReadsLists (nested : Reader (List Parameter)) (depth : Nat) : Prop :=
  ∀ {t ps rest}, nested.read t = some (ps, rest) →
    ∃ u, t = u ++ rest ∧ DerivesList u ps ∧ nestingItems ps + 1 ≤ depth

/-- A parameter that is read is derived if the lists in it are. -/
lemma parameter?_derives {nested : Reader (List Parameter)} (hn : ReadsLists nested depth)
    (h : parameter? false nested t = some (p, rest)) (hstart : ∀ c ∈ t.head?, isLayout c = false) :
    ∃ u, t = u ++ rest ∧ Derives u p ∧ p.nesting ≤ depth := by
  simp only [parameter?, Option.orElse_eq_orElse, Option.orElse_eq_or, Option.or_eq_some_iff] at h
  rcases h with h | ⟨htype, h | ⟨-, h⟩⟩
  · obtain ⟨⟨spec, rest₀⟩, hread, heq⟩ := Option.map_eq_some_iff.1 h
    simp only [Prod.mk.injEq] at heq
    obtain ⟨u, c, rest', hrest, -, ht, hu⟩ := typeParameter?_derives hread
    rw [← heq.1, ← heq.2, hrest]
    exact ⟨u, ht, .type hu, by simp [nesting]⟩
  · simp only [templateParameter?, Option.bind_eq_bind, Option.bind_eq_some_iff] at h
    obtain ⟨⟨params, t₁⟩, hlist, ⟨spec, t₂⟩, hread, h⟩ := h
    simp only [Option.some.injEq, Prod.mk.injEq] at h
    obtain ⟨u, ht, hu, hdepth⟩ := hn hlist
    obtain ⟨gap, hgap, ht₁⟩ := exists_gap t₁
    obtain ⟨v, c, rest', hrest, -, hv, hspec⟩ := typeParameter?_derives hread
    simp only at ht ht₁ hv hrest
    refine ⟨u ++ gap ++ v, ?_, ?_, ?_⟩
    · rw [← h.2, hrest, ht, ht₁, hv]
      simp only [List.append_assoc]
    · rw [← h.1]
      exact .template hu hgap hspec
    · rw [← h.1, nesting]
      exact hdepth
  · obtain ⟨u, c, rest', hrest, hc, ht, hp, hfilled, hrun⟩ := nonTypeParameter?_run h
    have hne : u ≠ [] := fun hnil => hfilled (by rw [hnil]; rfl)
    have hnone : typeParameter? false t = none := Option.map_eq_none_iff.1 htype
    refine ⟨u, by rw [hrest, ht], ?_, by simp [hp, nesting]⟩
    rw [hp]
    refine .nonType ⟨hfilled, ?_, hrun, ?_⟩
    · intro d hd
      apply hstart d
      rw [ht, List.head?_append, Option.mem_def.1 hd]
      rfl
    · -- a type parameter of this extent would have been read first
      intro spec hspec
      rw [ht, hspec.typeParameter? hc] at hnone
      simp at hnone

/-- The parameters that are read up to a closing bracket are derived, with as many lists nested as
each of them may have. -/
lemma commaList_derives {item : Reader Parameter}
    (hi : ∀ {t p rest}, item.read t = some (p, rest) → (∀ c ∈ t.head?, isLayout c = false) →
      ∃ u, t = u ++ rest ∧ Derives u p ∧ p.nesting ≤ depth)
    (h : item.commaList t = some (ps, rest)) (hstart : ∀ c ∈ t.head?, isLayout c = false) :
    ∃ u gap, t = u ++ gap ++ '>' :: rest ∧ gap.IsGap ∧ DerivesItems u ps ∧
      nestingItems ps ≤ depth := by
  fun_induction item.commaList t generalizing ps rest with
  | case1 => simp at h
  | case2 t p t₁ hread t₂ hcomma ih =>
    obtain ⟨⟨ps', rest'⟩, hmore, heq⟩ := Option.map_eq_some_iff.1 h
    simp only [Prod.mk.injEq] at heq
    obtain ⟨u, ht, hu, hdepth⟩ := hi hread hstart
    obtain ⟨gap, hgap, ht₁⟩ := exists_gap t₁
    obtain ⟨gap', hgap', ht₂⟩ := exists_gap t₂
    obtain ⟨v, gap'', hv, hgap'', hitems, hdepth'⟩ := ih hmore (head?_skipLayout t₂)
    rw [← heq.1, ← heq.2]
    refine ⟨u ++ gap ++ ',' :: gap' ++ v, gap'', ?_, hgap'', .cons hu hgap hgap' hitems, ?_⟩
    · calc t = u ++ (gap ++ ',' :: (gap' ++ skipLayout t₂)) := by rw [ht, ← ht₂, ← hcomma, ← ht₁]
        _ = u ++ gap ++ ',' :: gap' ++ v ++ gap'' ++ '>' :: rest' := by simp [hv]
    · rw [nestingItems]
      exact Nat.max_le.2 ⟨hdepth, hdepth'⟩
  | case3 t p t₁ hread t₂ hclose =>
    simp only [Option.some.injEq, Prod.mk.injEq] at h
    obtain ⟨u, ht, hu, hdepth⟩ := hi hread hstart
    obtain ⟨gap, hgap, ht₁⟩ := exists_gap t₁
    rw [← h.1, ← h.2]
    refine ⟨u, gap, ?_, hgap, .single hu, ?_⟩
    · rw [List.append_assoc, ← hclose, ← ht₁, ht]
    · simpa [nestingItems] using hdepth
  | case4 => simp at h

/-- What is read behind the keyword makes a list that is derived. -/
lemma angleList?_derives {item : Reader Parameter}
    (hi : ∀ {t p rest}, item.read t = some (p, rest) → (∀ c ∈ t.head?, isLayout c = false) →
      ∃ u, t = u ++ rest ∧ Derives u p ∧ p.nesting ≤ depth)
    (h : angleList? item t = some (ps, rest)) :
    ∃ u, t = u ++ rest ∧ DerivesList (keyword ++ u) ps ∧ nestingItems ps ≤ depth := by
  obtain ⟨gap, hgap, ht⟩ := exists_gap t
  rw [angleList?] at h
  split at h
  · rename_i t₁ hopen
    obtain ⟨gap', hgap', ht₁⟩ := exists_gap t₁
    split at h
    · rename_i t₂ hclose
      simp only [Option.some.injEq, Prod.mk.injEq] at h
      rw [← h.1, ← h.2]
      refine ⟨gap ++ '<' :: gap' ++ ['>'], ?_, ?_, by simp [nestingItems]⟩
      · rw [ht, hopen, ht₁, hclose]
        simp
      · have hlist := DerivesList.empty hgap hgap'
        simpa only [List.append_assoc] using hlist
    · obtain ⟨u, gap'', hu, hgap'', hitems, hdepth⟩ := commaList_derives hi h (head?_skipLayout t₁)
      refine ⟨gap ++ '<' :: gap' ++ u ++ gap'' ++ ['>'], ?_, ?_, hdepth⟩
      · rw [ht, hopen, ht₁, hu]
        simp
      · have hlist := DerivesList.filled hgap hgap' hitems hgap''
        simpa only [List.append_assoc] using hlist
  · simp at h

/-- Lists that are read are derived, and no more are nested than may be. -/
lemma parameterList_derives (depth : Nat) : ReadsLists (parameterList false depth) depth := by
  induction depth with
  | zero =>
    intro t ps rest h
    simp [parameterList] at h
  | succ depth ih =>
    intro t ps rest h
    obtain ⟨t₁, hword, hlist⟩ := Option.bind_eq_some_iff.1 h
    obtain ⟨u, ht, hu, hdepth⟩ := angleList?_derives (fun hread => parameter?_derives ih hread) hlist
    refine ⟨keyword ++ u, ?_, hu, Nat.succ_le_succ hdepth⟩
    rw [expect?_eq_some_iff.1 hword, ht, List.append_assoc]

end Lists

end Parameter

/-- A list that is read in front of `rest` is a declaration whose source is the text before it. -/
lemma Declaration.parse?_of_read {u rest : Text} {params : List Parameter}
    (h : (Parameter.parameterList false Parameter.maxNesting).read (u ++ rest) =
      some (params, rest)) :
    parse? (u ++ rest) = some ⟨params, u, rest⟩ := by
  rw [parse?, h, Option.map_some]
  show some (⟨params, (u ++ rest).take ((u ++ rest).length - rest.length), rest⟩ : Declaration) = _
  rw [List.length_append, Nat.add_sub_cancel, List.take_left]

/-- **Soundness for the grammar.** A declaration that is read stands at the front of the text, is
derived from the grammar with exactly the parameters that are returned, and nests no more lists
than may be nested. -/
theorem Declaration.derivesList_of_parse? {t : Text} {d : Declaration} (h : parse? t = some d) :
    t = d.source ++ d.rest ∧ d.consumed = d.source.byteLength ∧
      Parameter.DerivesList d.source d.params ∧
      Parameter.nestingItems d.params + 1 ≤ Parameter.maxNesting := by
  obtain ⟨⟨params, rest⟩, hread, -⟩ := Option.map_eq_some_iff.1 h
  obtain ⟨u, rfl, hlist, hdepth⟩ := Parameter.parameterList_derives _ hread
  obtain rfl : d = ⟨params, u, rest⟩ := Option.some.inj (h.symm.trans (parse?_of_read hread))
  exact ⟨rfl, rfl, hlist, hdepth⟩

/-- A nested list with a pack, a default with brackets in a group, and a comparison, which is a
loose value. -/
theorem Declaration.derivesList_of_parse?_nested :
    ∃ d, parse? "template < template<class...> class C = V<(>)>,\n a < b > x".toList = some d ∧
      d.params = [.template [.type ⟨true, [], []⟩] ⟨false, "C".toList, "V<(>)>".toList⟩,
        .nonType "a < b".toList] ∧
      Parameter.DerivesList d.source d.params ∧
      Parameter.nestingItems d.params + 1 ≤ Parameter.maxNesting := by
  have hread : parse? "template < template<class...> class C = V<(>)>,\n a < b > x".toList =
      some ⟨[.template [.type ⟨true, [], []⟩] ⟨false, "C".toList, "V<(>)>".toList⟩,
          .nonType "a < b".toList],
        "template < template<class...> class C = V<(>)>,\n a < b >".toList, " x".toList⟩ := by
    decide +kernel
  obtain ⟨-, -, hlist, hdepth⟩ := derivesList_of_parse? hread
  exact ⟨_, hread, rfl, hlist, hdepth⟩

end TemplateFolding
