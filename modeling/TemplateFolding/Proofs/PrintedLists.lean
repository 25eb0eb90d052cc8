import Mathlib.Tactic.Common
import TemplateFolding.Template.Declaration

/-!
# Reading back printed parameter lists

A parameter list has a plain spelling, `template<typename T, typename U = V<T>>`. This file defines
the spelling, says which lists it is faithful for, and proves that a declaration spelled this way
is read back as the list it spells, whatever text follows it.

What may stand in a default and in a non-type parameter is given by a grammar of closed groups.
It does not mention the reader, which counts brackets.
-/

namespace TemplateFolding

open Text

/-! ## Closed groups -/

namespace Parameter

/-- What may stand between `(` and `)`: every parenthesis is closed and nothing else matters. -/
inductive InParens : Text → Prop where
  | nil : InParens []
  | char {c : Char} {u : Text} : c ≠ '(' → c ≠ ')' → InParens u → InParens (c :: u)
  | parens {u v : Text} : InParens u → InParens v → InParens ('(' :: u ++ ')' :: v)

/-- What may stand between `<` and `>`: angle brackets and parentheses are closed. -/
inductive InAngles : Text → Prop where
  | nil : InAngles []
  | char {c : Char} {u : Text} : c ≠ '<' → c ≠ '>' → c ≠ '(' → InAngles u → InAngles (c :: u)
  | angles {u v : Text} : InAngles u → InAngles v → InAngles ('<' :: u ++ '>' :: v)
  | parens {u v : Text} : InParens u → InAngles v → InAngles ('(' :: u ++ ')' :: v)

/-- Plain characters and closed groups, no `,` or `>` outside the groups. Parentheses make a group
only when `grouped` is set. -/
inductive ClosedGroups (grouped : Bool) : Text → Prop where
  | nil : ClosedGroups grouped []
  | char {c : Char} {u : Text} : isEnd c = false → c ≠ '<' → (grouped → c ≠ '(') →
      ClosedGroups grouped u → ClosedGroups grouped (c :: u)
  | angles {u v : Text} : InAngles u → ClosedGroups grouped v →
      ClosedGroups grouped ('<' :: u ++ '>' :: v)
  | parens {u v : Text} : grouped → InParens u → ClosedGroups grouped v →
      ClosedGroups grouped ('(' :: u ++ ')' :: v)

/-- The result of a reader with `u` put in front of the run it read. -/
def prepend (u : Text) (r : Text × Text) : Text × Text :=
  (u ++ r.1, r.2)

lemma map_prepend_nil (r : Option (Text × Text)) : r.map (prepend []) = r := by
  cases r <;> simp [prepend]

/-- What is put in front of a run in two steps can be put there in one. -/
lemma map_prepend_prepend (u v : Text) (r : Option (Text × Text)) :
    (r.map (prepend v)).map (prepend u) = r.map (prepend (u ++ v)) := by
  cases r <;> simp [prepend]

/-- A character that does not end the run is put in front of what the rest gives. -/
lemma closedRun_cons {grouped : Bool} {n : Nesting} {c : Char} {cs : Text}
    (h : ¬(n = .none ∧ isEnd c)) :
    closedRun grouped n (c :: cs) =
      (closedRun grouped (n.push grouped c) cs).map (prepend [c]) := by
  rw [closedRun, if_neg h]
  rfl

/-- Inside parentheses, text in which they are closed is passed over. -/
lemma InParens.closedRun_append {u : Text} (h : InParens u) (grouped : Bool) (a k : Nat)
    (rest : Text) :
    closedRun grouped ⟨a, k + 1⟩ (u ++ rest) =
      (closedRun grouped ⟨a, k + 1⟩ rest).map (prepend u) := by
  have hopen : ∀ k c, ¬((⟨a, k + 1⟩ : Nesting) = .none ∧ isEnd c) := by
    intro k c h
    simp [Nesting.none] at h
  induction h generalizing k rest with
  | nil => rw [map_prepend_nil, List.nil_append]
  | @char c u h₁ h₂ _ ih =>
    have hpush : Nesting.push grouped ⟨a, k + 1⟩ c = ⟨a, k + 1⟩ := by simp [Nesting.push, h₁, h₂]
    rw [List.cons_append, closedRun_cons (hopen _ _), hpush, ih, map_prepend_prepend]
    rfl
  | @parens u v _ _ ihu ihv =>
    have hpush : Nesting.push grouped ⟨a, k + 1⟩ '(' = ⟨a, k + 1 + 1⟩ := by simp [Nesting.push]
    have hpop : Nesting.push grouped ⟨a, k + 1 + 1⟩ ')' = ⟨a, k + 1⟩ := by simp [Nesting.push]
    rw [List.append_assoc, List.cons_append, closedRun_cons (hopen _ _), hpush, List.cons_append,
      ihu, closedRun_cons (hopen _ _), hpop, ihv]
    simp only [map_prepend_prepend]
    simp

/-- A closed pair of parentheses is passed over wherever `(` opens a group. -/
lemma closedRun_parens (grouped : Bool) (a : Nat) {u : Text} (hg : grouped ∨ a ≠ 0)
    (h : InParens u) (rest : Text) :
    closedRun grouped ⟨a, 0⟩ ('(' :: u ++ ')' :: rest) =
      (closedRun grouped ⟨a, 0⟩ rest).map (prepend ('(' :: u ++ [')'])) := by
  have hpush : Nesting.push grouped ⟨a, 0⟩ '(' = ⟨a, 0 + 1⟩ := by simp [Nesting.push, hg]
  have hpop : Nesting.push grouped ⟨a, 0 + 1⟩ ')' = ⟨a, 0⟩ := by simp [Nesting.push]
  have hend : ∀ n : Nesting, ∀ c, c = '(' ∨ c = ')' → ¬(n = .none ∧ isEnd c) := by
    rintro n c (rfl | rfl) ⟨_, h⟩ <;> simp [isEnd] at h
  rw [List.cons_append, closedRun_cons (hend _ _ (Or.inl rfl)), hpush, h.closedRun_append,
    closedRun_cons (hend _ _ (Or.inr rfl)), hpop]
  simp only [map_prepend_prepend]
  simp

/-- Inside angle brackets, text in which all brackets are closed is passed over. -/
lemma InAngles.closedRun_append {u : Text} (h : InAngles u) (grouped : Bool) (a : Nat)
    (rest : Text) :
    closedRun grouped ⟨a + 1, 0⟩ (u ++ rest) =
      (closedRun grouped ⟨a + 1, 0⟩ rest).map (prepend u) := by
  have hopen : ∀ a c, ¬((⟨a + 1, 0⟩ : Nesting) = .none ∧ isEnd c) := by
    intro a c h
    simp [Nesting.none] at h
  induction h generalizing a rest with
  | nil => rw [map_prepend_nil, List.nil_append]
  | @char c u h₁ h₂ h₃ _ ih =>
    have hpush : Nesting.push grouped ⟨a + 1, 0⟩ c = ⟨a + 1, 0⟩ := by
      simp [Nesting.push, h₁, h₂, h₃]
    rw [List.cons_append, closedRun_cons (hopen _ _), hpush, ih, map_prepend_prepend]
    rfl
  | @angles u v _ _ ihu ihv =>
    have hpush : Nesting.push grouped ⟨a + 1, 0⟩ '<' = ⟨a + 1 + 1, 0⟩ := by simp [Nesting.push]
    have hpop : Nesting.push grouped ⟨a + 1 + 1, 0⟩ '>' = ⟨a + 1, 0⟩ := by simp [Nesting.push]
    rw [List.append_assoc, List.cons_append, closedRun_cons (hopen _ _), hpush, List.cons_append,
      ihu, closedRun_cons (hopen _ _), hpop, ihv]
    simp only [map_prepend_prepend]
    simp
  | @parens u v hu _ ihv =>
    have hrun := closedRun_parens grouped (a + 1) (Or.inr a.succ_ne_zero) hu (v ++ rest)
    rw [ihv, map_prepend_prepend] at hrun
    simpa using hrun

/-- Outside all groups, closed groups are passed over. -/
lemma ClosedGroups.closedRun_append {grouped : Bool} {u : Text} (h : ClosedGroups grouped u)
    (rest : Text) :
    closedRun grouped .none (u ++ rest) = (closedRun grouped .none rest).map (prepend u) := by
  induction h generalizing rest with
  | nil => rw [map_prepend_nil, List.nil_append]
  | @char c u h₁ h₂ h₃ _ ih =>
    have h₄ : c ≠ '>' := by
      rintro rfl
      simp [isEnd] at h₁
    have hpush : Nesting.push grouped .none c = .none := by
      have hgroup : ¬(c = '(' ∧ (grouped ∨ Nesting.none.angles ≠ 0)) := by
        rintro ⟨hc, hg | hg⟩
        · exact h₃ hg hc
        · exact hg rfl
      rw [Nesting.push, if_pos (show Nesting.none.parens = 0 from rfl), if_neg h₂, if_neg h₄, if_neg hgroup]
    rw [List.cons_append, closedRun_cons (by simp [h₁]), hpush, ih, map_prepend_prepend]
    rfl
  | @angles u v hu _ ihv =>
    have hpush : Nesting.push grouped .none '<' = ⟨0 + 1, 0⟩ := by simp [Nesting.push, Nesting.none]
    have hpop : Nesting.push grouped ⟨0 + 1, 0⟩ '>' = .none := by simp [Nesting.push, Nesting.none]
    rw [List.append_assoc, List.cons_append, closedRun_cons (by simp [isEnd]), hpush,
      List.cons_append, hu.closedRun_append, closedRun_cons (by simp [Nesting.none]), hpop, ihv]
    simp only [map_prepend_prepend]
    simp
  | @parens u v hg hu _ ihv =>
    have hrun := closedRun_parens grouped 0 (Or.inl hg) hu (v ++ rest)
    rw [← Nesting.none, ihv, map_prepend_prepend] at hrun
    simpa using hrun

/-- The run of closed groups in front of the end of a parameter is read whole. -/
lemma ClosedGroups.filledRun? {grouped : Bool} {u : Text} (h : ClosedGroups grouped u)
    (hfilled : trim u ≠ []) {c : Char} (hc : isEnd c) (rest : Text) :
    filledRun? grouped (u ++ c :: rest) = some (u, c :: rest) := by
  have hstop : closedRun grouped .none (c :: rest) = some ([], c :: rest) := by
    rw [closedRun, if_pos ⟨rfl, hc⟩]
  rw [Parameter.filledRun?, h.closedRun_append, hstop]
  simp [prepend, hfilled]

end Parameter

/-! ## Trimmed texts -/

namespace Text

lemma isBlank_of_isLayout {c : Char} (h : isLayout c) : isBlank c := by
  simp only [isLayout, Bool.or_eq_true, beq_iff_eq] at h
  rcases h with (((rfl | rfl) | rfl) | rfl) | rfl <;> decide

lemma length_trim_le (t : Text) : (trim t).length ≤ t.length := by
  have h₁ := (List.dropWhile_sublist (l := t) isBlank).length_le
  have h₂ := (List.dropWhile_sublist (l := (trimStart t).reverse) isBlank).length_le
  rw [List.length_reverse] at h₂
  rw [trim, trimEnd, List.length_reverse]
  exact Nat.le_trans h₂ h₁

/-- A trimmed text does not start with a blank. -/
lemma isBlank_head_of_trim {c : Char} {cs : Text} (h : trim (c :: cs) = c :: cs) :
    isBlank c = false := by
  by_contra hc
  have hdrop : trim (c :: cs) = trim cs := by
    rw [trim, trimStart, List.dropWhile_cons_of_pos (by simpa using hc)]
    rfl
  have hlen := length_trim_le cs
  rw [← hdrop, h, List.length_cons] at hlen
  omega

/-- A text that is trimmed has nothing to trim at its start. -/
lemma trimStart_of_trim {t : Text} (h : trim t = t) : trimStart t = t := by
  cases t with
  | nil => rfl
  | cons c cs =>
    rw [trimStart, List.dropWhile_cons_of_neg]
    simp [isBlank_head_of_trim h]

/-- Spaces around a trimmed text are all that trimming takes off. -/
lemma trim_spaced {t : Text} (h : trim t = t) : trim (' ' :: t ++ [' ']) = t := by
  have hfront : trimStart (' ' :: t ++ [' ']) = trimStart (t ++ [' ']) := by
    rw [List.cons_append, trimStart, List.dropWhile_cons_of_pos (by decide)]
    rfl
  rw [trim, hfront]
  cases t with
  | nil => rfl
  | cons c cs =>
    have hkeep : trimStart (c :: cs ++ [' ']) = c :: cs ++ [' '] := by
      rw [List.cons_append, trimStart, List.dropWhile_cons_of_neg]
      simp [isBlank_head_of_trim h]
    have hback : trimEnd (c :: cs ++ [' ']) = trimEnd (c :: cs) := by
      rw [trimEnd, List.reverse_append, List.reverse_singleton, List.singleton_append,
        List.dropWhile_cons_of_pos (by decide)]
      rfl
    have hend : trimEnd (c :: cs) = c :: cs := by
      rw [← trimStart_of_trim h]
      exact h.trans (trimStart_of_trim h).symm
    rw [hkeep, hback, hend]

/-- No layout is skipped in front of a trimmed text and a character that is not layout. -/
lemma skipLayout_of_trim {t : Text} (h : trim t = t) {c : Char} (hc : isLayout c = false)
    (rest : Text) : skipLayout (t ++ c :: rest) = t ++ c :: rest := by
  cases t with
  | nil => simp [skipLayout, hc]
  | cons d ds =>
    have hd : isLayout d ≠ true := by
      intro hd
      have := isBlank_head_of_trim h
      rw [isBlank_of_isLayout hd] at this
      exact absurd this (by decide)
    rw [List.cons_append, skipLayout, List.dropWhile_cons_of_neg hd]

lemma expect?_append (word rest : Text) : expect? word (word ++ rest) = some rest :=
  expect?_eq_some_iff.2 rfl

/-- A word that does not start a text is not completed by a character it does not have. -/
lemma expect?_append_eq_none {word t : Text} {c : Char} (hc : c ∉ word) (h : ¬word <+: t)
    (rest : Text) : expect? word (t ++ c :: rest) = none := by
  rw [Option.eq_none_iff_forall_ne_some]
  intro r hr
  rcases List.append_eq_append_iff.1 (expect?_eq_some_iff.1 hr) with ⟨u, hword, hu⟩ | ⟨u, ht, -⟩
  · cases u with
    | nil => exact h ⟨[], by rw [hword, List.append_nil, List.append_nil]⟩
    | cons d ds =>
      rw [List.cons_append] at hu
      rw [(List.cons.inj hu).1, hword] at hc
      simp at hc
  · exact h ⟨u, ht.symm⟩

end Text

/-! ## The end of a parameter -/

namespace Parameter

/-- What ends a parameter does not belong to its name, and starts no default. -/
lemma isNameChar_of_isEnd {c : Char} (h : isEnd c) : isNameChar c = false ∧ c ≠ '=' := by
  simp only [isEnd, Bool.or_eq_true, beq_iff_eq] at h
  rcases h with rfl | rfl <;> decide

lemma isLayout_of_isEnd {c : Char} (h : isEnd c) : isLayout c = false := by
  simp only [isEnd, Bool.or_eq_true, beq_iff_eq] at h
  rcases h with rfl | rfl <;> decide

/-- A value read up to the end of a parameter is kept. -/
lemma filter_atEnd {α : Type} (a : α) {c : Char} (h : isEnd c) (rest : Text) :
    (some (a, c :: rest)).filter (atEnd false ·.2) = some (a, c :: rest) := by
  have hend : atEnd false (c :: rest) = true := by
    rw [atEnd, skipLayout, List.dropWhile_cons_of_neg (by simp [isLayout_of_isEnd h])]
    exact h
  simp [hend]

end Parameter

/-! ## Type parameters -/

namespace TypeSpec

open Parameter

/-- What follows the keyword in the plain spelling of a type parameter. An absent name is left out
with its space, an absent default with its sign. -/
def spellAfterKeyword (s : TypeSpec) : Text :=
  (if s.isPack then "...".toList else []) ++ (if s.name = [] then [] else ' ' :: s.name) ++
    (if s.default = [] then [] else " = ".toList ++ s.default)

/-- The plain spelling of a type parameter. -/
def spell (s : TypeSpec) : Text :=
  "typename".toList ++ s.spellAfterKeyword

/-- When the plain spelling of a type parameter is faithful. -/
structure WellFormed (s : TypeSpec) : Prop where
  name_trimmed : trim s.name = s.name
  name_chars : ∀ c ∈ s.name, isNameChar c
  /-- Otherwise the dots would be taken for the mark of a pack. -/
  name_dots : s.isPack = false → s.default = [] → ¬"...".toList <+: s.name
  default_trimmed : trim s.default = s.default
  default_closed : ClosedGroups false s.default
  default_pack : s.default ≠ [] → s.isPack = false

/-- The keyword is read when the text after it does not continue the word. -/
lemma typeKeyword?_typename {t : Text} (h : ∀ c ∈ t.head?, isIdentifier c = false) :
    typeKeyword? ("typename".toList ++ t) = some t := by
  have hword := expect?_append "typename".toList t
  rw [typeKeyword?, hword]
  cases t with
  | nil => rfl
  | cons c cs =>
    have hc : isIdentifier c = false := h c rfl
    show (if isIdentifier c then none else some (c :: cs)) = some (c :: cs)
    rw [hc]
    rfl

/-- The keyword of a type parameter is read off its plain spelling. -/
lemma typeKeyword?_spell {s : TypeSpec} {c : Char} (hc : isEnd c) (rest : Text) :
    typeKeyword? (s.spell ++ c :: rest) = some (s.spellAfterKeyword ++ c :: rest) := by
  have hword : isIdentifier c = false := by
    simp only [isEnd, Bool.or_eq_true, beq_iff_eq] at hc
    rcases hc with rfl | rfl <;> decide
  unfold spell
  rw [List.append_assoc]
  apply typeKeyword?_typename
  -- The text after the keyword starts with a dot, a space or the end of the parameter.
  have hfirst : (s.spellAfterKeyword ++ c :: rest).head? ∈ [some '.', some ' ', some c] := by
    rw [spellAfterKeyword]
    split_ifs <;> simp
  intro d hd
  rw [Option.mem_def] at hd
  rw [hd] at hfirst
  simp only [List.mem_cons, Option.some.injEq, List.not_mem_nil, or_false] at hfirst
  rcases hfirst with rfl | rfl | rfl
  · decide
  · decide
  · exact hword

/-- A type parameter spelled with its default is read back. -/
lemma typeWithDefault?_spell {s : TypeSpec} (h : s.WellFormed) (hd : s.default ≠ []) {c : Char}
    (hc : isEnd c) (rest : Text) :
    typeWithDefault? (s.spell ++ c :: rest) = some (s, c :: rest) := by
  have hpack := h.default_pack hd
  -- The text after the keyword up to `=`: the name with a space on both sides.
  have hname : ∃ u, typeKeyword? (s.spell ++ c :: rest) =
      some (u ++ '=' :: ' ' :: (s.default ++ c :: rest)) ∧ (∀ c ∈ u, isNameChar c) ∧
      trim u = s.name := by
    rw [typeKeyword?_spell hc, spellAfterKeyword, hpack]
    by_cases hn : s.name = []
    · exact ⟨[' '], by simp [hn, hd], by simp [isNameChar], by rw [hn]; rfl⟩
    · refine ⟨' ' :: s.name ++ [' '], by simp [hn, hd], ?_, trim_spaced h.name_trimmed⟩
      intro d hmem
      simp only [List.cons_append, List.mem_cons, List.mem_append, List.not_mem_nil, or_false]
        at hmem
      rcases hmem with rfl | hmem | rfl
      · decide
      · exact h.name_chars d hmem
      · decide
  obtain ⟨u, hkey, hchars, htrim⟩ := hname
  have hdrop : (u ++ '=' :: ' ' :: (s.default ++ c :: rest)).dropWhile isNameChar =
      '=' :: ' ' :: (s.default ++ c :: rest) := by
    rw [List.dropWhile_append_of_pos hchars, List.dropWhile_cons_of_neg (by decide)]
  have htake : (u ++ '=' :: ' ' :: (s.default ++ c :: rest)).takeWhile isNameChar = u := by
    rw [List.takeWhile_append_of_pos hchars, List.takeWhile_cons_of_neg (by decide),
      List.append_nil]
  have hskip : skipLayout (' ' :: (s.default ++ c :: rest)) = s.default ++ c :: rest := by
    rw [skipLayout, List.dropWhile_cons_of_pos (by decide)]
    exact skipLayout_of_trim h.default_trimmed (isLayout_of_isEnd hc) rest
  have hrun := h.default_closed.filledRun? (by rwa [h.default_trimmed]) hc rest
  rw [typeWithDefault?, hkey, Option.bind_eq_bind, Option.bind_some, hdrop]
  simp only [hskip, hrun, htake, htrim, h.default_trimmed, Option.bind_eq_bind, Option.bind_some]
  rw [← hpack]

/-- The spelling without a default is no parameter with one. -/
lemma typeWithDefault?_spell_eq_none {s : TypeSpec} (h : s.WellFormed) (hd : s.default = [])
    {c : Char} (hc : isEnd c) (rest : Text) :
    typeWithDefault? (s.spell ++ c :: rest) = none := by
  have hchars : ∀ d ∈ s.spellAfterKeyword, isNameChar d := by
    intro d hmem
    have hd' : d = '.' ∨ d = ' ' ∨ d ∈ s.name := by
      revert hmem
      rw [spellAfterKeyword, if_pos hd]
      split_ifs <;> simp <;> tauto
    rcases hd' with rfl | rfl | hmem
    · decide
    · decide
    · exact h.name_chars d hmem
  obtain ⟨hstop, heq⟩ := isNameChar_of_isEnd hc
  rw [typeWithDefault?, typeKeyword?_spell hc, Option.bind_eq_bind, Option.bind_some,
    List.dropWhile_append_of_pos hchars, List.dropWhile_cons_of_neg (by simp [hstop])]
  split
  · rename_i t' heq'
    exact absurd (List.cons.inj heq').1 heq
  · rfl

/-- A type parameter spelled without a default is read back. -/
lemma typeWithoutDefault?_spell {s : TypeSpec} (h : s.WellFormed) (hd : s.default = []) {c : Char}
    (hc : isEnd c) (rest : Text) :
    typeWithoutDefault? (s.spell ++ c :: rest) = some (s, c :: rest) := by
  obtain ⟨hstop, -⟩ := isNameChar_of_isEnd hc
  have hname : skipLayout (s.name ++ c :: rest) = s.name ++ c :: rest :=
    skipLayout_of_trim h.name_trimmed (isLayout_of_isEnd hc) rest
  have hspaced : skipLayout ((if s.name = [] then [] else ' ' :: s.name) ++ c :: rest) =
      s.name ++ c :: rest := by
    by_cases hn : s.name = []
    · rw [if_pos hn, ← hname, hn]
    · rw [if_neg hn, List.cons_append, skipLayout, List.dropWhile_cons_of_pos (by decide)]
      exact hname
  have htake : (s.name ++ c :: rest).takeWhile isNameChar = s.name := by
    rw [List.takeWhile_append_of_pos h.name_chars, List.takeWhile_cons_of_neg (by simp [hstop]),
      List.append_nil]
  have hdrop : (s.name ++ c :: rest).dropWhile isNameChar = c :: rest := by
    rw [List.dropWhile_append_of_pos h.name_chars,
      List.dropWhile_cons_of_neg (by simp [hstop])]
  have hs : s = ⟨s.isPack, s.name, []⟩ := by rw [← hd]
  rw [typeWithoutDefault?, typeKeyword?_spell hc, spellAfterKeyword, if_pos hd, List.append_nil]
  simp only [Option.bind_eq_bind, Option.bind_some]
  cases hp : s.isPack with
  | true =>
    have hdots : skipLayout ("...".toList ++ (if s.name = [] then [] else ' ' :: s.name) ++
        c :: rest) = "...".toList ++
          ((if s.name = [] then [] else ' ' :: s.name) ++ c :: rest) := by
      rw [List.append_assoc]
      exact List.dropWhile_cons_of_neg (by decide)
    rw [if_pos rfl, hdots, expect?_append, Option.getD_some, hspaced, htake, hdrop,
      h.name_trimmed, Option.isSome_some, ← hp, ← hs]
  | false =>
    -- without dots after the keyword, the name must not be taken for them
    have hnodots : expect? "...".toList (s.name ++ c :: rest) = none := by
      apply expect?_append_eq_none
      · intro hmem
        have hdot : c = '.' := by simpa using hmem
        rw [hdot] at hc
        exact absurd hc (by decide)
      · exact h.name_dots hp hd
    rw [if_neg (by simp), List.nil_append, hspaced, hnodots, Option.getD_none, hname, htake, hdrop,
      h.name_trimmed, Option.isSome_none, ← hp, ← hs]

/-- A well-formed type parameter is read back from its spelling. -/
lemma typeParameter?_spell {s : TypeSpec} (h : s.WellFormed) {c : Char} (hc : isEnd c)
    (rest : Text) : typeParameter? false (s.spell ++ c :: rest) = some (s, c :: rest) := by
  unfold typeParameter?
  by_cases hd : s.default = []
  · rw [typeWithDefault?_spell_eq_none h hd hc, typeWithoutDefault?_spell h hd hc,
      filter_atEnd s hc]
    rfl
  · rw [typeWithDefault?_spell h hd hc, filter_atEnd s hc]
    rfl

end TypeSpec

/-! ## Parameters -/

namespace Parameter

/-- Whether a text starts with a word that is not continued. -/
def StartsWithWord (word t : Text) : Prop :=
  ∃ rest, t = word ++ rest ∧ ∀ c ∈ rest.head?, isIdentifier c = false

/-- When a text spells a non-type parameter. -/
structure IsValue (v : Text) : Prop where
  nonempty : v ≠ []
  trimmed : trim v = v
  closed : ClosedGroups true v
  not_type : ¬StartsWithWord "typename".toList v ∧ ¬StartsWithWord "class".toList v
  not_template : ¬StartsWithWord keyword v

/-- A text that does not start with a word either lacks its letters or goes on after them. -/
lemma expect?_value {word v : Text} (h : ¬StartsWithWord word v) {c : Char} (hc : c ∉ word)
    (rest : Text) :
    expect? word (v ++ c :: rest) = none ∨
      ∃ d ds, expect? word (v ++ c :: rest) = some (d :: ds) ∧ isIdentifier d := by
  by_cases hpre : word <+: v
  · obtain ⟨u, rfl⟩ := hpre
    right
    cases u with
    | nil => exact absurd ⟨[], rfl, by simp⟩ h
    | cons d ds =>
      refine ⟨d, ds ++ c :: rest, ?_, ?_⟩
      · rw [List.append_assoc]
        exact expect?_append word _
      · by_contra hd
        apply h
        refine ⟨d :: ds, rfl, ?_⟩
        intro e he
        have hde : d = e := by simpa using he
        rw [← hde]
        simpa using hd
  · exact Or.inl (expect?_append_eq_none hc hpre rest)

/-- A value is not read as a keyword in front of the end of a parameter. -/
lemma typeKeyword?_value {v : Text} (h : IsValue v) {c : Char} (hc : isEnd c) (rest : Text) :
    typeKeyword? (v ++ c :: rest) = none := by
  have hmem : c ∉ "typename".toList ∧ c ∉ "class".toList := by
    simp only [isEnd, Bool.or_eq_true, beq_iff_eq] at hc
    rcases hc with rfl | rfl <;> decide
  unfold typeKeyword?
  rcases expect?_value h.not_type.1 hmem.1 rest with h₁ | ⟨d, ds, h₁, hd⟩
  · rcases expect?_value h.not_type.2 hmem.2 rest with h₂ | ⟨d, ds, h₂, hd⟩
    · rw [h₁, h₂]
      rfl
    · rw [h₁, h₂]
      show (if isIdentifier d then none else some (d :: ds)) = none
      rw [if_pos hd]
  · rw [h₁]
    show (if isIdentifier d then none else some (d :: ds)) = none
    rw [if_pos hd]

lemma isLayout_of_isIdentifier {c : Char} (h : isIdentifier c) : isLayout c = false := by
  by_contra hl
  simp only [isLayout, Bool.not_eq_false, Bool.or_eq_true, beq_iff_eq] at hl
  rcases hl with (((rfl | rfl) | rfl) | rfl) | rfl <;> exact absurd h (by decide)

/-- A value does not open a list. -/
lemma read_value {v : Text} (h : IsValue v) {c : Char} (hc : isEnd c) (rest : Text) (depth : Nat) :
    (parameterList false depth).read (v ++ c :: rest) = none := by
  cases depth with
  | zero => rfl
  | succ depth =>
    have hmem : c ∉ keyword := by
      simp only [isEnd, Bool.or_eq_true, beq_iff_eq] at hc
      rcases hc with rfl | rfl <;> decide
    show (expect? keyword (v ++ c :: rest)).bind _ = none
    -- the keyword may be the beginning of a longer word, after which no bracket opens
    rcases expect?_value h.not_template hmem rest with h₁ | ⟨d, ds, h₁, hd⟩
    · rw [h₁]
      rfl
    · have hangle : d ≠ '<' := by
        rintro rfl
        exact absurd hd (by decide)
      rw [h₁, Option.bind_some, angleList?, skipLayout,
        List.dropWhile_cons_of_neg (by simp [isLayout_of_isIdentifier hd])]
      split
      · rename_i t' heq
        exact absurd (List.cons.inj heq).1 hangle
      · rfl

/-- A value is read off its plain spelling up to the end of the parameter. -/
lemma nonTypeParameter?_value {v : Text} (h : IsValue v) {c : Char} (hc : isEnd c) (rest : Text) :
    nonTypeParameter? false (v ++ c :: rest) = some (.nonType v, c :: rest) := by
  have hfilled : trim v ≠ [] := by
    rw [h.trimmed]
    exact h.nonempty
  rw [nonTypeParameter?, h.closed.filledRun? hfilled hc, filter_atEnd v hc]
  simp [h.trimmed]

mutual

/-- The plain spelling of a parameter. -/
def spell : Parameter → Text
  | .type spec => spec.spell
  | .nonType value => value
  | .template params spec => keyword ++ '<' :: (spellItems params ++ '>' :: ' ' :: spec.spell)

/-- The plain spellings of parameters with a comma and a space between them. -/
def spellItems : List Parameter → Text
  | [] => []
  | [p] => spell p
  | p :: q :: ps => spell p ++ ',' :: ' ' :: spellItems (q :: ps)

end

/-- The plain spelling of a declaration. -/
def spellList (params : List Parameter) : Text :=
  keyword ++ '<' :: (spellItems params ++ ['>'])

mutual

/-- When the plain spelling of a parameter is faithful. -/
def WellFormed : Parameter → Prop
  | .type spec => spec.WellFormed
  | .nonType value => IsValue value
  | .template params spec => WellFormedItems params ∧ spec.WellFormed

/-- When the plain spellings of all parameters of a list are faithful. -/
def WellFormedItems : List Parameter → Prop
  | [] => True
  | p :: ps => WellFormed p ∧ WellFormedItems ps

end

mutual

/-- How many lists are nested in a parameter. -/
def nesting : Parameter → Nat
  | .type _ => 0
  | .nonType _ => 0
  | .template params _ => nestingItems params + 1

/-- How many lists are nested in one of the parameters at most. -/
def nestingItems : List Parameter → Nat
  | [] => 0
  | p :: ps => max (nesting p) (nestingItems ps)

end

/-- The spelling of a parameter starts with neither layout nor the end of the list. -/
lemma spell_head : ∀ {p : Parameter}, p.WellFormed →
    ∃ c cs, p.spell = c :: cs ∧ isLayout c = false ∧ c ≠ '>'
  | .type spec, _ => by
    have hword : "typename".toList = 't' :: "ypename".toList := by decide
    refine ⟨'t', "ypename".toList ++ spec.spellAfterKeyword, ?_, by decide, by decide⟩
    unfold spell TypeSpec.spell
    rw [hword, List.cons_append]
  | .template params spec, _ => ⟨'t', _, rfl, by decide, by decide⟩
  | .nonType v, h => by
    have hv : IsValue v := by rwa [WellFormed] at h
    cases v with
    | nil => exact absurd rfl hv.nonempty
    | cons c cs =>
      refine ⟨c, cs, by rw [spell], ?_, ?_⟩
      · by_contra hl
        have hblank := isBlank_head_of_trim hv.trimmed
        rw [isBlank_of_isLayout (by simpa using hl)] at hblank
        exact absurd hblank (by decide)
      · -- outside all groups a closing bracket cannot stand
        rintro rfl
        have hclosed := hv.closed
        generalize hw : '>' :: cs = w at hclosed
        cases hclosed with
        | nil => simp at hw
        | char h =>
          rw [← (List.cons.inj hw).1] at h
          exact absurd h (by decide)
        | angles => exact absurd (List.cons.inj hw).1 (by decide)
        | parens => exact absurd (List.cons.inj hw).1 (by decide)

end Parameter

/-! ## Lists -/

/-- The comma list goes on after a comma. -/
lemma Reader.commaList_comma {α : Type} {item : Reader α} {t rest : Text} {a : α}
    (h : item.read t = some (a, ',' :: rest)) :
    item.commaList t = (item.commaList (skipLayout rest)).map fun (as, r) => (a :: as, r) := by
  rw [Reader.commaList]
  split
  · rename_i h'
    rw [h] at h'
    exact absurd h' (by simp)
  · rename_i a' rest' h'
    rw [h, Option.some.injEq, Prod.mk.injEq] at h'
    obtain ⟨rfl, rfl⟩ := h'
    rfl

/-- The comma list ends at the closing bracket. -/
lemma Reader.commaList_close {α : Type} {item : Reader α} {t rest : Text} {a : α}
    (h : item.read t = some (a, '>' :: rest)) : item.commaList t = some ([a], rest) := by
  rw [Reader.commaList]
  split
  · rename_i h'
    rw [h] at h'
    exact absurd h' (by simp)
  · rename_i a' rest' h'
    rw [h, Option.some.injEq, Prod.mk.injEq] at h'
    obtain ⟨rfl, rfl⟩ := h'
    rfl

namespace Parameter

/-- So does the spelling of a list that is not empty. -/
lemma spellItems_head : ∀ {ps : List Parameter}, WellFormedItems ps → ps ≠ [] →
    ∃ c cs, spellItems ps = c :: cs ∧ isLayout c = false ∧ c ≠ '>'
  | [p], h, _ => by
    rw [WellFormedItems] at h
    rw [spellItems]
    exact spell_head h.1
  | p :: q :: ps, h, _ => by
    rw [WellFormedItems] at h
    obtain ⟨c, cs, hp, hc⟩ := spell_head h.1
    exact ⟨c, cs ++ ',' :: ' ' :: spellItems (q :: ps), by simp [spellItems, hp], hc⟩

/-- A list that may have lists in it is the keyword and what follows it. -/
lemma read_parameterList_succ (depth : Nat) (t : Text) :
    (parameterList false (depth + 1)).read t =
      (expect? keyword t).bind (angleList? (parameter false (parameterList false depth))) :=
  rfl

/-- A spelled list is read back when its items are. -/
lemma read_of_commaList {ps : List Parameter} {depth : Nat} {rest : Text}
    (hwf : WellFormedItems ps)
    (h : ps ≠ [] → (parameter false (parameterList false depth)).commaList
      (spellItems ps ++ '>' :: rest) = some (ps, rest)) :
    (parameterList false (depth + 1)).read
      (keyword ++ '<' :: (spellItems ps ++ '>' :: rest)) = some (ps, rest) := by
  rw [read_parameterList_succ, expect?_append, Option.bind_some, angleList?, skipLayout,
    List.dropWhile_cons_of_neg (by decide)]
  by_cases hne : ps = []
  · rw [hne]
    rfl
  · obtain ⟨c, cs, heq, hlayout, hclose⟩ := spellItems_head hwf hne
    have hlist := h hne
    rw [heq, List.cons_append] at hlist ⊢
    simp only [skipLayout, List.dropWhile_cons_of_neg (show ¬isLayout c by simp [hlayout])]
    split
    · rename_i rest' heq'
      exact absurd (List.cons.inj heq').1 hclose
    · exact hlist

mutual

/-- A parameter is read back from its spelling in front of the end of a parameter. -/
theorem parameter?_spell (depth : Nat) (c : Char) (hc : isEnd c) (rest : Text) :
    (p : Parameter) → p.WellFormed → p.nesting ≤ depth →
      parameter? false (parameterList false depth) (p.spell ++ c :: rest) = some (p, c :: rest)
  | .type spec, h, _ => by
    rw [WellFormed] at h
    rw [parameter?, spell, TypeSpec.typeParameter?_spell h hc]
    rfl
  | .nonType v, h, _ => by
    rw [WellFormed] at h
    -- the forms that are tried first find neither keyword in front of a value
    have htype : typeParameter? false (v ++ c :: rest) = none := by
      simp [typeParameter?, typeWithDefault?, typeWithoutDefault?, typeKeyword?_value h hc]
    have htemplate : templateParameter? false (parameterList false depth) (v ++ c :: rest) =
        none := by
      simp [templateParameter?, read_value h hc]
    rw [parameter?, spell, htype, htemplate, nonTypeParameter?_value h hc]
    rfl
  | .template ps spec, h, hdepth => by
    rw [WellFormed] at h
    rw [nesting] at hdepth
    -- the list inside uses up one level of nesting
    obtain ⟨depth, rfl⟩ : ∃ d, depth = d + 1 := ⟨depth - 1, by omega⟩
    have hlist := read_of_commaList h.1
      (commaList_spellItems depth (' ' :: (spec.spell ++ c :: rest)) ps h.1 (by omega))
    have hspell : spell (.template ps spec) ++ c :: rest =
        keyword ++ '<' :: (spellItems ps ++ '>' :: ' ' :: (spec.spell ++ c :: rest)) := by
      simp only [spell, List.append_assoc, List.cons_append]
    have htype : typeParameter? false (keyword ++
        '<' :: (spellItems ps ++ '>' :: ' ' :: (spec.spell ++ c :: rest))) = none := by
      have hkey : ∀ t, typeKeyword? (keyword ++ t) = none := fun t => rfl
      simp [typeParameter?, typeWithDefault?, typeWithoutDefault?, hkey]
    have hskip : skipLayout (' ' :: (spec.spell ++ c :: rest)) = spec.spell ++ c :: rest := rfl
    rw [hspell, parameter?, htype, templateParameter?, hlist]
    simp only [Option.bind_eq_bind, Option.bind_some, hskip, TypeSpec.typeParameter?_spell h.2 hc]
    rfl

/-- The items of a list are read back from their spelling in front of the closing bracket. -/
theorem commaList_spellItems (depth : Nat) (rest : Text) :
    (ps : List Parameter) → WellFormedItems ps → nestingItems ps ≤ depth → ps ≠ [] →
      (parameter false (parameterList false depth)).commaList (spellItems ps ++ '>' :: rest) =
        some (ps, rest)
  | [], _, _, hne => absurd rfl hne
  | [p], h, hdepth, _ => by
    rw [WellFormedItems] at h
    rw [nestingItems] at hdepth
    rw [spellItems]
    exact Reader.commaList_close
      (parameter?_spell depth '>' (by decide) rest p h.1 (by omega))
  | p :: q :: ps, h, hdepth, _ => by
    rw [WellFormedItems] at h
    rw [nestingItems] at hdepth
    have hitem := parameter?_spell depth ',' (by decide)
      (' ' :: (spellItems (q :: ps) ++ '>' :: rest)) p h.1 (by omega)
    have hrest := commaList_spellItems depth rest (q :: ps) h.2 (by omega) (by simp)
    have hspell : spellItems (p :: q :: ps) ++ '>' :: rest =
        p.spell ++ ',' :: ' ' :: (spellItems (q :: ps) ++ '>' :: rest) := by
      simp only [spellItems, List.append_assoc, List.cons_append]
    have hskip : skipLayout (' ' :: (spellItems (q :: ps) ++ '>' :: rest)) =
        spellItems (q :: ps) ++ '>' :: rest := by
      obtain ⟨c, cs, heq, hlayout, -⟩ := spellItems_head h.2 (by simp)
      rw [heq, skipLayout, List.dropWhile_cons_of_pos (by decide), List.cons_append,
        List.dropWhile_cons_of_neg (by simp [hlayout])]
    rw [hspell, Reader.commaList_comma hitem, hskip, hrest]
    rfl

end

end Parameter

/-- A declaration spelled plainly is read back as the list it spells, to its closing bracket and
no further, whatever text follows it. -/
theorem Declaration.parse?_spellList {params : List Parameter}
    (h : Parameter.WellFormedItems params)
    (hdepth : Parameter.nestingItems params + 1 ≤ Parameter.maxNesting) (rest : Text) :
    ∃ d, parse? (Parameter.spellList params ++ rest) = some d ∧ d.params = params ∧
      d.consumed = (Parameter.spellList params).byteLength ∧
      d.source = Parameter.spellList params ∧ d.rest = rest := by
  have hread : (Parameter.parameterList false Parameter.maxNesting).read
      (Parameter.spellList params ++ rest) = some (params, rest) := by
    have hspell : Parameter.spellList params ++ rest =
        Parameter.keyword ++ '<' :: (Parameter.spellItems params ++ '>' :: rest) := by
      simp only [Parameter.spellList, List.append_assoc, List.cons_append, List.nil_append]
    rw [hspell]
    exact Parameter.read_of_commaList h
      (Parameter.commaList_spellItems (Parameter.maxNesting - 1) rest params h (Nat.le_of_succ_le_succ hdepth))
  have hsource : (Parameter.spellList params ++ rest).take
      ((Parameter.spellList params ++ rest).length - rest.length) =
        Parameter.spellList params := by
    rw [List.length_append, Nat.add_sub_cancel]
    exact List.take_left
  refine ⟨⟨params, Parameter.spellList params, rest⟩, ?_, rfl, rfl, rfl, rfl⟩
  rw [parse?, hread, Option.map_some]
  simp only [hsource]

/-- `template<typename, typename... T> typename C = V<(>)>` and `f(,)`: a nested list, a pack, and
brackets that count inside a group only. -/
def Parameter.nestedSample : List Parameter :=
  [.template [.type ⟨false, [], []⟩, .type ⟨true, ['T'], []⟩]
      ⟨false, ['C'], ['V', '<', '(', '>', ')', '>']⟩,
    .nonType ['f', '(', ',', ')']]

/-- A list with another one in it, a pack and a default with brackets is read off its plain
spelling. -/
theorem Declaration.parse?_spellList_nested :
    Parameter.WellFormedItems Parameter.nestedSample ∧
      Parameter.nestingItems Parameter.nestedSample + 1 ≤ Parameter.maxNesting ∧
      ∃ d, parse? (Parameter.spellList Parameter.nestedSample ++ ['>', 'x']) = some d ∧
        d.params = Parameter.nestedSample ∧
        d.consumed = (Parameter.spellList Parameter.nestedSample).byteLength ∧
        d.source = Parameter.spellList Parameter.nestedSample ∧ d.rest = ['>', 'x'] := by
  have hplain : ∀ pack name, (∀ c ∈ name, Parameter.isNameChar c) → trim name = name →
      ¬"...".toList <+: name → TypeSpec.WellFormed ⟨pack, name, []⟩ := by
    intro pack name hchars htrim hdots
    exact ⟨htrim, hchars, fun _ _ => hdots, rfl, .nil, fun h => absurd rfl h⟩
  have hdefault : TypeSpec.WellFormed ⟨false, ['C'], ['V', '<', '(', '>', ')', '>']⟩ := by
    refine ⟨by decide, by simp [Parameter.isNameChar], fun _ h => absurd h (by decide), by decide,
      ?_, fun _ => rfl⟩
    refine .char (by decide) (by decide) (by decide)
      (.angles (u := ['(', '>', ')']) (v := []) ?_ .nil)
    exact .parens (u := ['>']) (v := []) (.char (by decide) (by decide) .nil) .nil
  have hvalue : Parameter.IsValue ['f', '(', ',', ')'] := by
    refine ⟨by decide, by decide, ?_, ⟨?_, ?_⟩, ?_⟩
    · refine .char (by decide) (by decide) (by decide)
        (.parens (u := [',']) (v := []) rfl ?_ .nil)
      exact .char (by decide) (by decide) .nil
    all_goals
      rintro ⟨rest, h, _⟩
      exact absurd (List.cons.inj h).1 (by decide)
  have hwf : Parameter.WellFormedItems Parameter.nestedSample := by
    simp only [Parameter.nestedSample, Parameter.WellFormedItems, Parameter.WellFormed, and_true]
    refine ⟨⟨⟨hplain _ _ ?_ rfl (by decide), hplain _ _ ?_ (by decide) (by decide)⟩, hdefault⟩, hvalue⟩
    · simp
    · simp [Parameter.isNameChar]
  have hdepth : Parameter.nestingItems Parameter.nestedSample + 1 ≤ Parameter.maxNesting := by
    decide
  exact ⟨hwf, hdepth, parse?_spellList hwf hdepth ['>', 'x']⟩

end TemplateFolding
