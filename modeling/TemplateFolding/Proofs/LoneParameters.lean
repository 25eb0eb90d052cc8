import TemplateFolding.Proofs.CompleteSearch
import TemplateFolding.Proofs.RelaidText

/-!
# A parameter alone and in a list

A parameter that stands alone ends where the text ends, and one in a list ends in front of the
closing `>`. Behind that `>` there is nothing, so whatever runs past it finds no end for a
parameter, and reading in front of the `>` comes to the same as reading up to the end of the text.
One kind of reader is an exception: a nested list may take the `>` for its own. But then no type
parameter can follow, and the list is given up as it would be at the end of the text.

The two ways to read differ in how many lists may still be open. This is not felt in a text that has
the keyword less often than lists may be nested.
-/

namespace TemplateFolding

open Text

namespace Parameter

variable {α : Type} {standalone : Bool} {nested nested' : Reader (List Parameter)} {t u rest : Text}
  {p : Parameter} {ps : List Parameter} {depth : Nat}

/-! ## In front of the closing bracket -/

/-- What is left, with the closing bracket behind it. -/
def withClosing (r : α × Text) : α × Text :=
  (r.1, r.2 ++ ['>'])

/-- A reader in front of the closing bracket and one at the end of the text read the same, or the
former takes the bracket itself and leaves nothing. -/
def ClosesAlike (atBracket atEnd : Option (α × Text)) : Prop :=
  atBracket = atEnd.map withClosing ∨ atEnd = none ∧ ∃ a, atBracket = some (a, [])

lemma skipLayout_concat (u : Text) : skipLayout (u ++ ['>']) = skipLayout u ++ ['>'] :=
  skipLayout_append_end (by decide) u []

/-- A parameter ends in front of the bracket if it ends with the text. -/
lemma atEnd_concat (u : Text) : atEnd false (u ++ ['>']) = atEnd true u := by
  unfold atEnd
  rw [skipLayout_concat]
  cases skipLayout u <;> rfl

/-- A word without a bracket is read in front of the bracket as it is at the end. -/
lemma expect?_concat {word : Text} (hword : '>' ∉ word) (u : Text) :
    expect? word (u ++ ['>']) = (expect? word u).map (· ++ ['>']) := by
  by_cases hprefix : word <+: u
  · obtain ⟨rest, rfl⟩ := hprefix
    rw [List.append_assoc, expect?_append, expect?_append, Option.map_some]
  · have hnone : expect? word u = none := by
      rw [Option.eq_none_iff_forall_ne_some]
      intro rest hrest
      exact hprefix ⟨rest, (expect?_eq_some_iff.1 hrest).symm⟩
    rw [expect?_append_eq_none hword hprefix, hnone, Option.map_none]

lemma typeKeyword?_concat (u : Text) :
    typeKeyword? (u ++ ['>']) = (typeKeyword? u).map (· ++ ['>']) := by
  unfold typeKeyword?
  rw [expect?_concat (by decide), expect?_concat (by decide)]
  simp only [Option.orElse_eq_orElse, Option.orElse_eq_or, ← Option.map_or]
  cases (expect? "typename".toList u).or (expect? "class".toList u) with
  | none => rfl
  | some rest =>
    cases rest with
    | nil => rfl
    | cons c rest =>
      simp only [Option.map_some, List.cons_append]
      split_ifs <;> rfl

/-- Characters are taken off up to the bracket as they are up to the end. -/
lemma takeWhile_concat {q : Char → Bool} (hq : q '>' = false) (u : Text) :
    (u ++ ['>']).takeWhile q = u.takeWhile q ∧
      (u ++ ['>']).dropWhile q = u.dropWhile q ++ ['>'] := by
  induction u with
  | nil => simp [hq]
  | cons c u ih =>
    rw [List.cons_append, List.takeWhile_cons, List.dropWhile_cons, List.takeWhile_cons,
      List.dropWhile_cons]
    split
    · exact ⟨congrArg (c :: ·) ih.1, ih.2⟩
    · exact ⟨rfl, rfl⟩

/-- Where the bracket closes a group, the run goes on to the end. -/
lemma closedRun_concat (grouped : Bool) (n : Nesting) (u : Text) :
    ClosesAlike (closedRun grouped n (u ++ ['>'])) (closedRun grouped n u) := by
  induction u generalizing n with
  | nil =>
    by_cases hn : n = .none
    · subst hn
      exact .inl rfl
    · have hend : closedRun grouped n [] = none := by rw [closedRun, if_neg hn]
      rw [hend, List.nil_append, closedRun_cons (by simp [hn]), closedRun]
      split_ifs
      · exact .inr ⟨rfl, ['>'], rfl⟩
      · exact .inl rfl
  | cons c u ih =>
    by_cases hstop : n = .none ∧ isEnd c
    · rw [List.cons_append, closedRun, closedRun, if_pos hstop, if_pos hstop]
      exact .inl rfl
    · rw [List.cons_append, closedRun_cons hstop, closedRun_cons hstop]
      rcases ih (n.push grouped c) with heq | ⟨hnone, a, ha⟩
      · rw [heq]
        cases closedRun grouped (n.push grouped c) u <;> exact .inl rfl
      · rw [hnone, ha]
        exact .inr ⟨rfl, _, rfl⟩

/-- A run that is not blank stops in front of the bracket, or takes it to close a group. -/
lemma filledRun?_concat (grouped : Bool) (u : Text) :
    ClosesAlike (filledRun? grouped (u ++ ['>'])) (filledRun? grouped u) := by
  unfold filledRun?
  rcases closedRun_concat grouped .none u with heq | ⟨hnone, a, ha⟩
  · rw [heq]
    cases closedRun grouped .none u with
    | none => exact .inl rfl
    | some r =>
      simp only [Option.map_some, withClosing]
      split_ifs <;> exact .inl rfl
  · rw [hnone, ha]
    dsimp only
    split_ifs
    · exact .inl rfl
    · exact .inr ⟨rfl, a, rfl⟩

/-- Nothing ends behind the bracket, so with the demand for an end the two readers agree. -/
lemma ClosesAlike.filter_atEnd {atBracket atText : Option (α × Text)}
    (h : ClosesAlike atBracket atText) :
    atBracket.filter (atEnd false ·.2) = (atText.filter (atEnd true ·.2)).map withClosing := by
  rcases h with rfl | ⟨rfl, a, rfl⟩
  · cases atText with
    | none => rfl
    | some r =>
      rw [Option.map_some, Option.filter_some, Option.filter_some]
      simp only [withClosing, atEnd_concat]
      split_ifs <;> rfl
  · rfl

/-- A type with its default stops in front of the bracket, or takes it to close a group. -/
lemma typeWithDefault?_concat (u : Text) :
    ClosesAlike (typeWithDefault? (u ++ ['>'])) (typeWithDefault? u) := by
  unfold typeWithDefault?
  rw [typeKeyword?_concat]
  cases typeKeyword? u with
  | none => exact .inl rfl
  | some t =>
    obtain ⟨hname, hdrop⟩ := takeWhile_concat (q := isNameChar) (by decide) t
    simp only [Option.map_some, Option.bind_eq_bind, Option.bind_some, hname, hdrop]
    cases t.dropWhile isNameChar with
    | nil => exact .inl rfl
    | cons c rest =>
      by_cases hc : c = '='
      · subst hc
        simp only [List.cons_append, skipLayout_concat]
        rcases filledRun?_concat false (skipLayout rest) with heq | ⟨hnone, a, ha⟩
        · rw [heq]
          cases filledRun? false (skipLayout rest) <;> exact .inl rfl
        · rw [hnone, ha]
          exact .inr ⟨rfl, _, rfl⟩
      · simp only [List.cons_append]
        split
        · rename_i heq
          exact absurd (List.cons.inj heq).1 hc
        · split
          · rename_i heq
            exact absurd (List.cons.inj heq).1 hc
          · exact .inl rfl

/-- A type without a default stops in front of the bracket. -/
lemma typeWithoutDefault?_concat (u : Text) :
    typeWithoutDefault? (u ++ ['>']) = (typeWithoutDefault? u).map withClosing := by
  unfold typeWithoutDefault?
  rw [typeKeyword?_concat]
  cases typeKeyword? u with
  | none => rfl
  | some t =>
    simp only [Option.map_some, Option.bind_eq_bind, Option.bind_some, skipLayout_concat]
    rw [expect?_concat (by decide)]
    have hpack : ((expect? "...".toList (skipLayout t)).map (· ++ ['>'])).getD
        (skipLayout t ++ ['>']) =
        (expect? "...".toList (skipLayout t)).getD (skipLayout t) ++ ['>'] := by
      cases expect? "...".toList (skipLayout t) <;> rfl
    rw [hpack, skipLayout_concat, Option.isSome_map]
    obtain ⟨hname, hdrop⟩ := takeWhile_concat (q := isNameChar) (by decide)
      (skipLayout ((expect? "...".toList (skipLayout t)).getD (skipLayout t)))
    rw [hname, hdrop]
    rfl

/-- A type parameter in a list is read as one that stands alone. -/
lemma typeParameter?_concat (u : Text) :
    typeParameter? false (u ++ ['>']) = (typeParameter? true u).map withClosing := by
  unfold typeParameter?
  rw [(typeWithDefault?_concat u).filter_atEnd,
    ClosesAlike.filter_atEnd (.inl (typeWithoutDefault?_concat u))]
  simp only [Option.orElse_eq_orElse, Option.orElse_eq_or, Option.map_or]

lemma looseRun?_concat (u : Text) : looseRun? (u ++ ['>']) = (looseRun? u).map withClosing := by
  unfold looseRun?
  obtain ⟨hrun, hdrop⟩ := takeWhile_concat (q := (!isEnd ·)) (by decide) u
  rw [hrun, hdrop]
  dsimp only
  split_ifs <;> rfl

lemma nonTypeParameter?_concat (u : Text) :
    nonTypeParameter? false (u ++ ['>']) = (nonTypeParameter? true u).map withClosing := by
  unfold nonTypeParameter?
  rw [(filledRun?_concat true u).filter_atEnd,
    ClosesAlike.filter_atEnd (.inl (looseRun?_concat u))]
  simp only [Option.orElse_eq_orElse, Option.orElse_eq_or, ← Option.map_or, Option.map_map]
  rfl

/-! ## Lists in front of the closing bracket -/

/-- Two readers of lists, one for texts with the closing bracket behind them. -/
def ListsCloseAlike (nested' nested : Reader (List Parameter)) : Prop :=
  ∀ u, ClosesAlike (nested'.read (u ++ ['>'])) (nested.read u)

/-- A list that takes the bracket has nothing behind it, and so no type parameter. -/
lemma templateParameter?_concat (hn : ListsCloseAlike nested' nested) (u : Text) :
    templateParameter? false nested' (u ++ ['>']) =
      (templateParameter? true nested u).map withClosing := by
  unfold templateParameter?
  rcases hn u with heq | ⟨hnone, ps, hps⟩
  · rw [heq]
    cases nested.read u with
    | none => rfl
    | some r =>
      simp only [Option.map_some, Option.bind_eq_bind, Option.bind_some, withClosing,
        skipLayout_concat, typeParameter?_concat]
      cases typeParameter? true (skipLayout r.2) <;> rfl
  · rw [hnone, hps]
    rfl

/-- A parameter in a list is read as one that stands alone, if the lists in it are. -/
lemma parameter?_concat (hn : ListsCloseAlike nested' nested) (u : Text) :
    parameter? false nested' (u ++ ['>']) = (parameter? true nested u).map withClosing := by
  unfold parameter?
  rw [typeParameter?_concat, templateParameter?_concat hn, nonTypeParameter?_concat]
  simp only [Option.orElse_eq_orElse, Option.orElse_eq_or, Option.map_or, Option.map_map]
  rfl

/-- Parameters up to a closing bracket are read alike, if each of them is. -/
lemma commaList_concat {item item' : Reader Parameter}
    (hi : ∀ u, item'.read (u ++ ['>']) = (item.read u).map withClosing) (u : Text) :
    ClosesAlike (item'.commaList (u ++ ['>'])) (item.commaList u) := by
  -- by induction on the length of the text: the rest after an item is shorter
  induction hlen : u.length using Nat.strong_induction_on generalizing u with
  | _ n ih =>
    rw [item'.commaList_eq, item.commaList_eq, hi]
    cases hread : item.read u with
    | none => exact .inl rfl
    | some x =>
      have hlt := item.shorter hread
      have hle := length_skipLayout_le x.2
      simp only [Option.map_some, Option.bind_some, withClosing, skipLayout_concat]
      cases hrest : skipLayout x.2 with
      | nil => exact .inr ⟨rfl, _, rfl⟩
      | cons c rest =>
        rw [hrest, List.length_cons] at hle
        rw [List.cons_append]
        by_cases hcomma : c = ','
        · subst hcomma
          have hle' := length_skipLayout_le rest
          simp only [skipLayout_concat]
          rcases ih _ (by omega) (skipLayout rest) rfl with heq | ⟨hnone, ps, hps⟩
          · rw [heq]
            cases item.commaList (skipLayout rest) <;> exact .inl rfl
          · rw [hnone, hps]
            exact .inr ⟨rfl, _, rfl⟩
        · by_cases hclose : c = '>'
          · subst hclose
            exact .inl rfl
          · left
            split <;> simp_all

lemma angleList?_concat {item item' : Reader Parameter}
    (hi : ∀ u, item'.read (u ++ ['>']) = (item.read u).map withClosing) (u : Text) :
    ClosesAlike (angleList? item' (u ++ ['>'])) (angleList? item u) := by
  unfold angleList?
  rw [skipLayout_concat]
  cases skipLayout u with
  | nil => exact .inl rfl
  | cons c u =>
    rw [List.cons_append]
    by_cases hopen : c = '<'
    · subst hopen
      simp only [skipLayout_concat]
      have hlist := commaList_concat hi (skipLayout u)
      cases hu : skipLayout u with
      | nil =>
        -- the bracket closes a list without parameters; at the end of the text nothing is read
        have hnone : item.read [] = none := by
          rw [Option.eq_none_iff_forall_ne_some]
          intro x hx
          exact absurd (item.shorter hx) (Nat.not_lt_zero _)
        have hend : item.commaList [] = none := by
          rw [item.commaList_eq, hnone]
          rfl
        exact .inr ⟨hend, [], rfl⟩
      | cons d v =>
        rw [hu, List.cons_append] at hlist
        rw [List.cons_append]
        by_cases hclose : d = '>'
        · subst hclose
          exact .inl rfl
        · split
          · simp_all
          · split
            · simp_all
            · exact hlist
    · left
      split <;> simp_all

/-- Lists of any depth, in front of the closing bracket and at the end of the text. -/
lemma parameterList_concat (depth : Nat) :
    ListsCloseAlike (parameterList false depth) (parameterList true depth) := by
  induction depth with
  | zero => exact fun _ => .inl rfl
  | succ depth ih =>
    intro u
    show ClosesAlike ((expect? keyword (u ++ ['>'])).bind _) ((expect? keyword u).bind _)
    rw [expect?_concat (by decide)]
    cases expect? keyword u with
    | none => exact .inl rfl
    | some rest => exact angleList?_concat (parameter?_concat ih) rest

/-! ## The limit on nesting -/

/-- How often the keyword occurs in a text, occurrences that share characters counted once. -/
def keywordCount (t : Text) : Nat :=
  match t with
  | [] => 0
  | c :: cs =>
    match _word : expect? keyword (c :: cs) with
    | some rest => keywordCount rest + 1
    | none => keywordCount cs
termination_by t.length
decreasing_by
  · have := congrArg List.length (expect?_eq_some_iff.1 _word)
    simp only [List.length_append] at this
    have : keyword.length = 8 := rfl
    omega
  · simp

/-- A character with which the keyword does not start adds no keyword. -/
lemma keywordCount_of_none {c : Char} (h : expect? keyword (c :: t) = none) :
    keywordCount (c :: t) = keywordCount t := by
  rw [keywordCount]
  split
  · simp_all
  · rfl

/-- The keyword at the start of a text is one more than in what follows. -/
lemma keywordCount_of_expect? (h : expect? keyword t = some rest) :
    keywordCount t = keywordCount rest + 1 := by
  cases t with
  | nil => exact absurd (List.append_eq_nil_iff.1 (expect?_eq_some_iff.1 h).symm).1 (by decide)
  | cons c t =>
    rw [keywordCount]
    split
    · rename_i rest' hword
      rw [Option.some.inj (h.symm.trans hword)]
    · rename_i hnone
      rw [hnone] at h
      simp at h

/-- A character that does not start the keyword is passed over. -/
lemma keywordCount_cons_of_ne {c : Char} (hc : c ≠ 't') (t : Text) :
    keywordCount (c :: t) = keywordCount t :=
  keywordCount_of_none (if_neg (Ne.symm hc))

lemma expect?_keyword_letters (h : expect? keyword t = some rest) :
    t = 't' :: 'e' :: 'm' :: 'p' :: 'l' :: 'a' :: 't' :: 'e' :: rest := by
  have hletters : keyword = ['t', 'e', 'm', 'p', 'l', 'a', 't', 'e'] := by decide
  rw [expect?_eq_some_iff.1 h, hletters]
  rfl

lemma keywordCount_le_cons (c : Char) (t : Text) : keywordCount t ≤ keywordCount (c :: t) := by
  induction hlen : t.length using Nat.strong_induction_on generalizing c t with
  | _ n ih =>
    cases hword : expect? keyword (c :: t) with
    | none => exact Nat.le_of_eq (keywordCount_of_none hword).symm
    | some rest =>
      rw [keywordCount_of_expect? hword]
      have ht : t = 'e' :: 'm' :: 'p' :: 'l' :: 'a' :: 't' :: 'e' :: rest :=
        (List.cons.inj (expect?_keyword_letters hword)).2
      rw [ht]
      -- the only other place for a keyword is the `te` at the end of this one
      iterate 5 rw [keywordCount_cons_of_ne (by decide)]
      cases hshared : expect? keyword ('t' :: 'e' :: rest) with
      | none =>
        rw [keywordCount_of_none hshared, keywordCount_cons_of_ne (by decide)]
        exact Nat.le_succ _
      | some rest' =>
        rw [keywordCount_of_expect? hshared]
        have hrest : rest = 'm' :: 'p' :: 'l' :: 'a' :: 't' :: 'e' :: rest' :=
          (List.cons.inj (List.cons.inj (expect?_keyword_letters hshared)).2).2
        have hle : keywordCount ('e' :: rest') ≤ keywordCount ('t' :: 'e' :: rest') := by
          refine ih _ ?_ 't' ('e' :: rest') rfl
          rw [← hlen, ht, hrest]
          simp only [List.length_cons]
          omega
        rw [keywordCount_cons_of_ne (by decide)] at hle
        rw [hrest]
        iterate 4 rw [keywordCount_cons_of_ne (by decide)]
        exact Nat.succ_le_succ hle

/-- The end of a text has no more keywords than the text. -/
lemma keywordCount_le_of_suffix (h : u <:+ t) : keywordCount u ≤ keywordCount t := by
  obtain ⟨front, rfl⟩ := h
  induction front with
  | nil => exact Nat.le_refl _
  | cons c front ih => exact Nat.le_trans ih (keywordCount_le_cons c _)

/-- How a parameter is read depends only on how lists are read at its start. -/
lemma parameter?_congr (h : nested.read t = nested'.read t) :
    parameter? standalone nested t = parameter? standalone nested' t := by
  unfold parameter? templateParameter?
  rw [h]

/-- How parameters are read depends only on how each of them is read. -/
lemma commaList_congr {item item' : Reader Parameter} (hs : item.LeavesSuffix)
    (h : ∀ u, u <:+ t → item.read u = item'.read u) : item.commaList t = item'.commaList t := by
  induction hlen : t.length using Nat.strong_induction_on generalizing t with
  | _ n ih =>
    rw [item.commaList_eq, item'.commaList_eq, h t (List.suffix_refl t)]
    cases hread : item'.read t with
    | none => rfl
    | some x =>
      have hlt := item'.shorter hread
      have hle := length_skipLayout_le x.2
      have hsuffix : x.2 <:+ t := hs ((h t (List.suffix_refl t)).trans hread)
      simp only [Option.bind_some]
      split
      · rename_i rest hcomma
        have hle' := length_skipLayout_le rest
        rw [hcomma, List.length_cons] at hle
        have htail : skipLayout rest <:+ t := (skipLayout_suffix rest).trans
          ((List.suffix_cons ',' rest).trans ((closing_suffix_of_skipLayout hcomma).trans hsuffix))
        rw [ih _ (by omega) (fun u hu => h u (hu.trans htail)) rfl]
      · rfl
      · rfl

lemma angleList?_congr {item item' : Reader Parameter} (hs : item.LeavesSuffix)
    (h : ∀ u, u <:+ t → item.read u = item'.read u) : angleList? item t = angleList? item' t := by
  unfold angleList?
  split
  · rename_i t₁ hopen
    have htail : t₁ <:+ t := (List.suffix_cons '<' t₁).trans (closing_suffix_of_skipLayout hopen)
    split
    · rfl
    · exact commaList_congr hs fun u hu => h u (hu.trans ((skipLayout_suffix t₁).trans htail))
  · rfl

/-- A level of nesting more makes no difference where the keyword is too rare to reach it. -/
lemma parameterList_deeper (h : keywordCount t ≤ depth) :
    (parameterList standalone (depth + 1)).read t = (parameterList standalone depth).read t := by
  induction depth generalizing t with
  | zero =>
    show (expect? keyword t).bind _ = none
    cases hword : expect? keyword t with
    | none => rfl
    | some rest =>
      rw [keywordCount_of_expect? hword] at h
      omega
  | succ depth ih =>
    show (expect? keyword t).bind _ = (expect? keyword t).bind _
    cases hword : expect? keyword t with
    | none => rfl
    | some rest =>
      rw [keywordCount_of_expect? hword] at h
      refine angleList?_congr (parameter_leavesSuffix (parameterList_leavesSuffix _)) ?_
      intro u hu
      refine parameter?_congr (ih ?_)
      exact Nat.le_trans (keywordCount_le_of_suffix hu) (Nat.le_of_succ_le_succ h)

/-! ## Alone and in a list -/

/-- A parameter is never read at a closing bracket. -/
lemma parameter?_closing_eq_none (standalone : Bool) (depth : Nat) (t : Text) :
    parameter? standalone (parameterList standalone depth) ('>' :: t) = none := by
  have hlist : (parameterList standalone depth).read ('>' :: t) = none := by
    cases depth <;> rfl
  unfold parameter? templateParameter?
  rw [hlist]
  rfl

/-- There is a parameter at least in front of a comma or a bracket. -/
lemma commaList_ne_nil {item : Reader Parameter} (h : item.commaList t = some (ps, rest)) :
    ps ≠ [] := by
  rw [item.commaList_eq] at h
  obtain ⟨x, -, h⟩ := Option.bind_eq_some_iff.1 h
  split at h
  · obtain ⟨y, -, heq⟩ := Option.map_eq_some_iff.1 h
    rw [← (Prod.mk.inj heq).1]
    exact List.cons_ne_nil _ _
  · rw [← (Prod.mk.inj (Option.some.inj h)).1]
    exact List.cons_ne_nil _ _
  · simp at h

/-- A list of one parameter that ends with the text is that parameter read alone. -/
lemma commaList_single_iff {item item' : Reader Parameter}
    (hi : ∀ u, item'.read (u ++ ['>']) = (item.read u).map withClosing) :
    item'.commaList (u ++ ['>']) = some ([p], []) ↔
      ∃ rest, item.read u = some (p, rest) ∧ skipLayout rest = [] := by
  rw [item'.commaList_eq, hi, Option.bind_eq_some_iff]
  constructor
  · rintro ⟨x, hx, h⟩
    obtain ⟨⟨q, rest⟩, hread, rfl⟩ := Option.map_eq_some_iff.1 hx
    simp only [withClosing, skipLayout_concat] at h
    refine ⟨rest, ?_⟩
    cases hrest : skipLayout rest with
    | nil =>
      rw [hrest] at h
      obtain rfl : q = p := by simpa using h
      exact ⟨hread, rfl⟩
    | cons c v =>
      rw [hrest, List.cons_append] at h
      split at h
      · -- more parameters would follow
        obtain ⟨⟨qs, r⟩, hmore, heq⟩ := Option.map_eq_some_iff.1 h
        have hnil : qs = [] := by simpa using congrArg (List.tail ∘ Prod.fst) heq
        exact absurd hnil (commaList_ne_nil hmore)
      · -- the list would end before the text does
        rename_i heq
        have hlast : v ++ ['>'] = [] := by
          rw [(List.cons.inj heq).2]
          exact (Prod.mk.inj (Option.some.inj h)).2
        simp at hlast
      · simp at h
  · rintro ⟨rest, hread, hrest⟩
    refine ⟨(p, rest ++ ['>']), by rw [hread]; rfl, ?_⟩
    simp only [skipLayout_concat, hrest, List.nil_append]

/-- What stands between the brackets of a list. -/
lemma angleList?_single_iff {item : Reader Parameter} (hitem : ∀ u, item.read ('>' :: u) = none) :
    angleList? item ('<' :: t) = some ([p], []) ↔
      item.commaList (skipLayout t) = some ([p], []) := by
  have hopen : skipLayout ('<' :: t) = '<' :: t := List.dropWhile_cons_of_neg (by decide)
  rw [angleList?, hopen]
  split
  · rename_i t' heq
    obtain ⟨-, rfl⟩ := List.cons.inj heq
    split
    · rename_i rest hclose
      rw [hclose, item.commaList_eq, hitem]
      simp
    · rfl
  · rename_i hother
    exact absurd rfl (hother t)

end Parameter

open Parameter in
/-- The whole text of a declaration is consumed if nothing is left of it. -/
lemma Declaration.parse?_whole_iff {t : Text} {params : List Parameter} :
    (∃ d, Declaration.parse? t = some d ∧ d.params = params ∧ d.consumed = t.byteLength) ↔
      (parameterList false maxNesting).read t = some (params, []) := by
  constructor
  · rintro ⟨d, hd, rfl, hsize⟩
    have hsplit := (parse?_source hd).1
    obtain ⟨⟨params, rest⟩, hread, rfl⟩ := Option.map_eq_some_iff.1 hd
    have hnil : rest = [] := by
      by_contra hne
      have hpos := byteLength_pos hne
      have hlength := congrArg byteLength hsplit
      rw [byteLength_append] at hlength
      change byteLength _ = _ at hsize
      dsimp only at hsize hlength
      omega
    rw [hread, hnil]
  · intro h
    refine ⟨⟨params, t, []⟩, ?_, rfl, rfl⟩
    rw [Declaration.parse?, h]
    simp

namespace Parameter

variable {t : Text} {p : Parameter}

/-- A text is a parameter alone if and only if a list with that text between its brackets is a list
of that parameter, as long as the keyword is not too frequent in it. -/
theorem parse?_eq_some_iff_in_list (h : keywordCount t < maxNesting) :
    Parameter.parse? t = some p ↔
      ∃ d, Declaration.parse? ("template<".toList ++ t ++ ['>']) = some d ∧
        d.params = [p] ∧ d.consumed = t.byteLength + 10 := by
  have hsize : byteLength ("template<".toList ++ t ++ ['>']) = t.byteLength + 10 := by
    rw [byteLength_append, byteLength_append]
    have hword : byteLength "template<".toList = 9 := by decide
    have hclose : byteLength ['>'] = 1 := by decide
    omega
  rw [← hsize, Declaration.parse?_whole_iff]
  -- both sides read the parameter itself, one with a level of nesting less
  have hlevel : (parameterList true maxNesting).read (skipLayout t) =
      (parameterList true 31).read (skipLayout t) :=
    parameterList_deeper (Nat.le_trans (keywordCount_le_of_suffix (skipLayout_suffix t))
      (Nat.le_of_lt_succ h))
  have hitem : ∀ u, (parameter false (parameterList false 31)).read (u ++ ['>']) =
      ((parameter true (parameterList true 31)).read u).map withClosing :=
    parameter?_concat (parameterList_concat 31)
  have hlist : (parameterList false maxNesting).read ("template<".toList ++ t ++ ['>']) =
      angleList? (parameter false (parameterList false 31)) ('<' :: (t ++ ['>'])) := rfl
  rw [hlist, angleList?_single_iff (parameter?_closing_eq_none false 31), skipLayout_concat,
    commaList_single_iff hitem]
  have halone : (parameter true (parameterList true maxNesting)).read (skipLayout t) =
      (parameter true (parameterList true 31)).read (skipLayout t) := parameter?_congr hlevel
  rw [Parameter.parse?, halone]
  constructor
  · intro hparse
    split at hparse
    · rename_i q rest hread
      split_ifs at hparse with hend
      obtain rfl := Option.some.inj hparse
      exact ⟨rest, hread, List.isEmpty_iff.1 hend⟩
    · simp at hparse
  · rintro ⟨rest, hread, hend⟩
    simp [hread, hend]

/-- A nested list with groups in the default behind it. -/
theorem parse?_eq_some_iff_in_list_nested :
    ∃ (t : Text) (p : Parameter), t = " template<bool B, class T> class C = V<(B > 0), T> ".toList ∧
      p = .template [.nonType "bool B".toList, .type ⟨false, "T".toList, []⟩]
        ⟨false, "C".toList, "V<(B > 0), T>".toList⟩ ∧
      keywordCount t < maxNesting ∧ Parameter.parse? t = some p ∧
      ∃ d, Declaration.parse? ("template<".toList ++ t ++ ['>']) = some d ∧
        d.params = [p] ∧ d.consumed = t.byteLength + 10 := by
  have hcount : keywordCount " template<bool B, class T> class C = V<(B > 0), T> ".toList <
      maxNesting := by decide +kernel
  have hparse : Parameter.parse? " template<bool B, class T> class C = V<(B > 0), T> ".toList =
      some (.template [.nonType "bool B".toList, .type ⟨false, "T".toList, []⟩]
        ⟨false, "C".toList, "V<(B > 0), T>".toList⟩) := by decide +kernel
  exact ⟨_, _, rfl, rfl, hcount, hparse, (parse?_eq_some_iff_in_list hcount).1 hparse⟩

end Parameter

end TemplateFolding
