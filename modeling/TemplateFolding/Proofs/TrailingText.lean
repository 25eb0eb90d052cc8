import TemplateFolding.Proofs.FoundDeclarations
import TemplateFolding.Proofs.ParameterGrammar

/-!
# When the text after a declaration matters

A run with closed groups is tried before a loose one, and it may go on past the bracket that closes
the declaration. Where a value leaves a group open, the text after the declaration decides whether
the group is ever closed, and so decides what is read: `template<bool B = N < 3>` is a declaration
by itself and none in front of ` struct S { int a, b; };`.

The main result says that this is all there is to it. If no value begins like a type parameter with
a default or like a list, then the text after a declaration is ignored exactly when every value of
the declaration has closed groups.
-/

namespace TemplateFolding

open Text

/-! ## Blanks around a text -/

namespace Text

/-- Trimming takes off blanks on both sides and nothing else. -/
lemma exists_trim (t : Text) : ∃ u v : Text, (∀ c ∈ u, isBlank c) ∧ (∀ c ∈ v, isBlank c) ∧
    t = u ++ trim t ++ v := by
  refine ⟨t.takeWhile isBlank, ((trimStart t).reverse.takeWhile isBlank).reverse,
    fun c hc => List.mem_takeWhile_imp hc, ?_, ?_⟩
  · intro c hc
    exact List.mem_takeWhile_imp (List.mem_reverse.1 hc)
  · have hback : trimStart t = trim t ++ ((trimStart t).reverse.takeWhile isBlank).reverse := by
      rw [trim, trimEnd, ← List.reverse_append, List.takeWhile_append_dropWhile, List.reverse_reverse]
    rw [List.append_assoc, ← hback]
    exact List.takeWhile_append_dropWhile.symm

/-- What stands between two characters that are not blank is kept. -/
lemma trim_append {u v : Text} {c : Char} (hu : ∀ d ∈ u.head?, isBlank d = false)
    (hc : isBlank c = false) : trim (u ++ c :: v) = u ++ c :: trimEnd v := by
  have hfront : trimStart (u ++ c :: v) = u ++ c :: v := by
    cases u with
    | nil => exact List.dropWhile_cons_of_neg (by simp [hc])
    | cons d ds => exact List.dropWhile_cons_of_neg (by simp [hu d rfl])
  have hback : (v.reverse ++ c :: u.reverse).dropWhile isBlank =
      v.reverse.dropWhile isBlank ++ c :: u.reverse := by
    rw [List.dropWhile_append]
    split
    · rename_i hnil
      rw [List.isEmpty_iff.1 hnil, List.nil_append, List.dropWhile_cons_of_neg (by simp [hc])]
    · rfl
  have hreverse : (u ++ c :: v).reverse = v.reverse ++ c :: u.reverse := by simp
  rw [trim, hfront, trimEnd, hreverse, hback, trimEnd]
  simp

end Text

namespace Parameter

variable {grouped standalone : Bool} {t rest u v w : Text} {c d : Char} {p : Parameter}
  {ps : List Parameter}

/-! ## Closed groups and blanks -/

/-- A blank neither ends a parameter nor opens or closes a group. -/
lemma isEnd_of_isBlank (h : isBlank c) : isEnd c = false ∧ c ≠ '<' ∧ c ≠ '(' ∧ c ≠ '>' ∧ c ≠ ')' := by
  refine ⟨?_, ?_, ?_, ?_, ?_⟩
  · by_contra hend
    simp only [isEnd, Bool.not_eq_false, Bool.or_eq_true, beq_iff_eq] at hend
    rcases hend with rfl | rfl <;> exact absurd h (by decide)
  all_goals
    rintro rfl
    exact absurd h (by decide)

/-- Texts with closed groups, put together, have closed groups. -/
lemma ClosedGroups.append (hu : ClosedGroups grouped u) (hv : ClosedGroups grouped v) :
    ClosedGroups grouped (u ++ v) := by
  induction hu with
  | nil => exact hv
  | char h₁ h₂ h₃ _ ih => exact .char h₁ h₂ h₃ ih
  | angles hw _ ih =>
    rw [List.append_assoc, List.cons_append]
    exact .angles hw ih
  | parens hg hw _ ih =>
    rw [List.append_assoc, List.cons_append]
    exact .parens hg hw ih

lemma closedGroups_of_blank (h : ∀ c ∈ u, isBlank c) : ClosedGroups grouped u := by
  induction u with
  | nil => exact .nil
  | cons c u ih =>
    obtain ⟨h₁, h₂, h₃, -⟩ := isEnd_of_isBlank (h c (by simp))
    exact .char h₁ h₂ (fun _ => h₃) (ih fun d hd => h d (List.mem_cons_of_mem _ hd))

/-- Blanks in front do not change whether groups are closed. -/
lemma ClosedGroups.of_blank_append (h : ClosedGroups grouped (u ++ v)) (hu : ∀ c ∈ u, isBlank c) :
    ClosedGroups grouped v := by
  induction u with
  | nil => exact h
  | cons c u ih =>
    obtain ⟨-, h₂, h₃, -⟩ := isEnd_of_isBlank (hu c (by simp))
    apply ih _ fun d hd => hu d (List.mem_cons_of_mem _ hd)
    generalize hw : c :: u ++ v = w at h
    rw [List.cons_append] at hw
    cases h with
    | nil => simp at hw
    | char _ _ _ h => rwa [(List.cons.inj hw).2]
    | angles => exact absurd (List.cons.inj hw).1 h₂
    | parens => exact absurd (List.cons.inj hw).1 h₃

/-- The last character stands behind every other one. -/
lemma exists_of_append_eq_concat (hcd : d ≠ c) (h : u ++ d :: v = w ++ [c]) :
    ∃ v', v = v' ++ [c] ∧ w = u ++ d :: v' := by
  rcases List.eq_nil_or_concat v with rfl | ⟨v', e, rfl⟩
  · obtain ⟨-, hlast⟩ := List.append_inj' h rfl
    exact absurd (List.cons.inj hlast).1 hcd
  · have hsplit : (u ++ d :: v') ++ [e] = w ++ [c] := by simpa using h
    obtain ⟨hfront, hlast⟩ := List.append_inj' hsplit rfl
    have he : e = c := (List.cons.inj hlast).1
    exact ⟨v', by simp [he], hfront.symm⟩

/-- A blank at the end belongs to no group. -/
lemma ClosedGroups.of_concat_blank (h : ClosedGroups grouped w) (hc : isBlank c)
    (hw : w = u ++ [c]) : ClosedGroups grouped u := by
  obtain ⟨-, -, -, hangle, hparen⟩ := isEnd_of_isBlank hc
  induction h generalizing u with
  | nil => simp at hw
  | @char d w h₁ h₂ h₃ _ ih =>
    cases u with
    | nil => exact .nil
    | cons e u =>
      rw [List.cons_append, List.cons.injEq] at hw
      rw [← hw.1]
      exact .char h₁ h₂ h₃ (ih hw.2)
  | angles hx _ ih =>
    obtain ⟨v', hv, hu⟩ := exists_of_append_eq_concat hangle.symm hw
    rw [hu]
    exact .angles hx (ih hv)
  | parens hg hx _ ih =>
    obtain ⟨v', hv, hu⟩ := exists_of_append_eq_concat hparen.symm hw
    rw [hu]
    exact .parens hg hx (ih hv)

/-- Blanks behind do not change whether groups are closed. -/
lemma ClosedGroups.of_append_blank (h : ClosedGroups grouped (u ++ v)) (hv : ∀ c ∈ v, isBlank c) :
    ClosedGroups grouped u := by
  induction v generalizing u with
  | nil => rwa [List.append_nil] at h
  | cons c v ih =>
    have hu : ClosedGroups grouped (u ++ [c]) :=
      ih (by rwa [List.append_assoc, List.singleton_append]) fun d hd => hv d (List.mem_cons_of_mem _ hd)
    exact hu.of_concat_blank (hv c (by simp)) rfl

/-- Blanks around a text do not matter for its groups. -/
lemma closedGroups_trim : ClosedGroups grouped (trim u) ↔ ClosedGroups grouped u := by
  obtain ⟨a, b, ha, hb, hu⟩ := exists_trim u
  constructor
  · intro h
    rw [hu]
    exact ((closedGroups_of_blank ha).append h).append (closedGroups_of_blank hb)
  · intro h
    rw [hu, List.append_assoc] at h
    exact (h.of_blank_append ha).of_append_blank hb

/-! ## Values -/

mutual

/-- The non-type parameters in a parameter, at any depth. -/
def values : Parameter → List Text
  | .type _ => []
  | .nonType value => [value]
  | .template params _ => valuesOf params

/-- The non-type parameters in a list of parameters, at any depth. -/
def valuesOf : List Parameter → List Text
  | [] => []
  | p :: ps => values p ++ valuesOf ps

end

/-- Whether a value begins like a type parameter with a default. -/
def BeginsDefault (v : Text) : Prop :=
  ∃ word name rest, IsTypeWord word ∧ (∀ c ∈ name, isNameChar c) ∧ v = word ++ name ++ '=' :: rest

/-- Whether a value begins like a list. -/
def BeginsList (v : Text) : Prop :=
  ∃ gap rest : Text, gap.IsGap ∧ v = keyword ++ gap ++ '<' :: rest

/-- A value that is read the same way whatever follows it. -/
structure IsSettled (v : Text) : Prop where
  closed : ClosedGroups true v
  no_default : ¬BeginsDefault v
  no_list : ¬BeginsList v

/-! ## What a value in front of other text is not taken for -/

/-- What is read in front of the end of a parameter without meeting it lies in the value. -/
lemma exists_of_append_eq (hc : c ∉ v) (h : u ++ c :: rest = v ++ w) :
    ∃ w', u = v ++ w' ∧ w = w' ++ c :: rest := by
  rcases List.append_eq_append_iff.1 h with ⟨x, hv, hx⟩ | ⟨x, hu, hw⟩
  · cases x with
    | nil => exact ⟨[], by simpa using hv.symm, by simpa using hx.symm⟩
    | cons d x =>
      rw [List.cons_append] at hx
      rw [hv, ← (List.cons.inj hx).1] at hc
      simp at hc
  · exact ⟨x, hu, hw⟩

lemma notMem_of_isTypeWord (hv : IsTypeWord v) (hc : isEnd c) : c ∉ v := by
  simp only [isEnd, Bool.or_eq_true, beq_iff_eq] at hc
  rcases hv with rfl | rfl <;> rcases hc with rfl | rfl <;> decide

lemma notMem_of_isNameChar (hv : ∀ d ∈ v, isNameChar d) (hc : isEnd c) : c ∉ v := by
  intro hmem
  have hname := hv c hmem
  rw [(isNameChar_of_isEnd hc).1] at hname
  simp at hname

/-- A type parameter that goes on past the end of a parameter has a default. -/
lemma DerivesType.beginsDefault {spec : TypeSpec} (h : DerivesType (u ++ c :: rest) spec)
    (hc : isEnd c) : BeginsDefault u := by
  have hdot : c ∉ "...".toList := by
    simp only [isEnd, Bool.or_eq_true, beq_iff_eq] at hc
    rcases hc with rfl | rfl <;> decide
  generalize hw : u ++ c :: rest = w at h
  cases h with
  | @withDefault word name gap run hword _ hchars _ _ _ =>
    have hsign : c ∉ ['='] := by
      simpa using (isNameChar_of_isEnd hc).2
    have hfront : c ∉ word ++ name ++ ['='] := by
      rw [List.mem_append, List.mem_append, not_or, not_or]
      exact ⟨⟨notMem_of_isTypeWord hword hc, notMem_of_isNameChar hchars hc⟩, hsign⟩
    obtain ⟨w', hu, -⟩ := exists_of_append_eq (w := gap ++ run) hfront (by simpa using hw)
    exact ⟨word, name, w', hword, hchars, by simpa using hu⟩
  | @pack word gap gap' name hword hgap hgap' hchars =>
    -- no end of a parameter stands in it
    have hmem : c ∈ u ++ c :: rest := by simp
    rw [hw] at hmem
    simp only [List.mem_append] at hmem
    rcases hmem with (((hmem | hmem) | hmem) | hmem) | hmem
    · exact absurd hmem (notMem_of_isTypeWord hword hc)
    · exact absurd hmem (notMem_of_isNameChar (fun d hd => isNameChar_of_isLayout (hgap d hd)) hc)
    · exact absurd hmem hdot
    · exact absurd hmem (notMem_of_isNameChar (fun d hd => isNameChar_of_isLayout (hgap' d hd)) hc)
    · exact absurd hmem (notMem_of_isNameChar hchars hc)
  | @single word gap name hword _ hgap hchars _ _ =>
    have hmem : c ∈ u ++ c :: rest := by simp
    rw [hw] at hmem
    simp only [List.mem_append] at hmem
    rcases hmem with (hmem | hmem) | hmem
    · exact absurd hmem (notMem_of_isTypeWord hword hc)
    · exact absurd hmem (notMem_of_isNameChar (fun d hd => isNameChar_of_isLayout (hgap d hd)) hc)
    · exact absurd hmem (notMem_of_isNameChar hchars hc)

/-- Trimming keeps the beginning of a type parameter with a default. -/
lemma BeginsDefault.trim (h : BeginsDefault u) : BeginsDefault (trim u) := by
  obtain ⟨word, name, rest, hword, hchars, rfl⟩ := h
  refine ⟨word, name, trimEnd rest, hword, hchars, trim_append ?_ (by decide)⟩
  intro d hd
  rcases hword with rfl | rfl
  · have hdt : 't' = d := by simpa using hd
    rw [← hdt]
    decide
  · have hdc : 'c' = d := by simpa using hd
    rw [← hdc]
    decide

/-- Whether a value begins like a list does not depend on blanks around it. -/
lemma BeginsList.trim (h : BeginsList u) : BeginsList (trim u) := by
  obtain ⟨gap, rest, hgap, rfl⟩ := h
  refine ⟨gap, trimEnd rest, hgap, trim_append ?_ (by decide)⟩
  intro d hd
  have hhead : (keyword ++ gap).head? = some 't' := rfl
  rw [hhead, Option.mem_some_iff] at hd
  rw [← hd]
  decide

/-- A value that is no type parameter in front of one text is none in front of any other. -/
lemma typeParameter?_eq_none {rest' : Text} (h : typeParameter? false (u ++ c :: rest) = none)
    (hc : isEnd c) (hu : ¬BeginsDefault u) : typeParameter? false (u ++ c :: rest') = none := by
  rw [Option.eq_none_iff_forall_ne_some]
  rintro ⟨spec, r⟩ hread
  obtain ⟨v, d, r', -, hd, hsplit, hv⟩ := typeParameter?_derives hread
  rcases List.append_eq_append_iff.1 hsplit with ⟨x, hx, hx'⟩ | ⟨x, hx, hx'⟩
  · cases x with
    | nil =>
      -- the value itself would be a type parameter
      rw [List.append_nil] at hx
      rw [hx] at hv
      rw [hv.typeParameter? hc] at h
      simp at h
    | cons e x =>
      -- it would go on past the value
      rw [List.cons_append, List.cons.injEq] at hx'
      rw [hx, ← hx'.1] at hv
      exact hu (hv.beginsDefault hc)
  · cases x with
    | nil =>
      rw [List.append_nil] at hx
      rw [← hx] at hv
      rw [hv.typeParameter? hc] at h
      simp at h
    | cons e x =>
      -- it would end inside the value
      rw [List.cons_append, List.cons.injEq] at hx'
      rw [hx, ← hx'.1, List.append_assoc, List.cons_append, hv.typeParameter? hd] at h
      simp at h

/-- A value that does not begin like a list opens none. -/
lemma read_eq_none (hc : isEnd c) (hu : ¬BeginsList u) (rest : Text) (depth : Nat) :
    (parameterList false depth).read (u ++ c :: rest) = none := by
  rw [Option.eq_none_iff_forall_ne_some]
  rintro ⟨ps, r⟩ hread
  obtain ⟨w, hw, hlist, -⟩ := parameterList_derives depth hread
  -- the list is derived, so it begins with the keyword and a bracket
  obtain ⟨gap, y, hgap, hy⟩ : BeginsList (u ++ c :: rest) := by
    cases hlist with
    | empty hgap hgap' => exact ⟨_, _, hgap, by rw [hw]; simp; rfl⟩
    | filled hgap hgap' hitems hgap'' => exact ⟨_, _, hgap, by rw [hw]; simp; rfl⟩
  have hfront : c ∉ keyword ++ gap ++ ['<'] := by
    rw [List.mem_append, List.mem_append, not_or, not_or]
    refine ⟨⟨?_, notMem_of_isNameChar (fun d hd => isNameChar_of_isLayout (hgap d hd)) hc⟩, ?_⟩
    all_goals
      simp only [isEnd, Bool.or_eq_true, beq_iff_eq] at hc
      rcases hc with rfl | rfl <;> decide
  obtain ⟨w', hu', -⟩ := exists_of_append_eq (w := y) hfront (by simpa using hy)
  exact hu ⟨gap, w', hgap, by simpa using hu'⟩

/-! ## Settled values: the text after a list is ignored -/

/-- Whether all values in a list of parameters are settled. -/
def AllSettled (ps : List Parameter) : Prop :=
  ∀ v ∈ valuesOf ps, IsSettled v

/-- A list with settled values is read the same way whatever follows it. -/
def IgnoresRest (lists : Reader (List Parameter)) : Prop :=
  ∀ {t ps rest}, lists.read t = some (ps, rest) → AllSettled ps →
    ∃ u, t = u ++ rest ∧ ∀ s, lists.read (u ++ s) = some (ps, s)

/-- A parameter with settled values is read the same way whatever follows its end. -/
def IgnoresAfterEnd (items : Reader Parameter) : Prop :=
  ∀ {t p rest}, items.read t = some (p, rest) → (∀ v ∈ p.values, IsSettled v) →
    ∃ u c rest', rest = c :: rest' ∧ isEnd c ∧ t = u ++ c :: rest' ∧
      ∀ s, items.read (u ++ c :: s) = some (p, c :: s)

lemma parameter?_type {nested : Reader (List Parameter)} {spec : TypeSpec}
    (h : typeParameter? standalone t = some (spec, rest)) :
    parameter? standalone nested t = some (.type spec, rest) := by
  rw [parameter?, h]
  rfl

/-- A parameter that cannot be read as a type is read as a template if it can. -/
lemma parameter?_template {nested : Reader (List Parameter)}
    (htype : typeParameter? standalone t = none)
    (h : templateParameter? standalone nested t = some (p, rest)) :
    parameter? standalone nested t = some (p, rest) := by
  rw [parameter?, htype, h]
  rfl

/-- A parameter that can be read as neither is a value. -/
lemma parameter?_nonType {nested : Reader (List Parameter)}
    (htype : typeParameter? standalone t = none) (hlist : nested.read t = none)
    (h : nonTypeParameter? standalone t = some (p, rest)) :
    parameter? standalone nested t = some (p, rest) := by
  have htemplate : templateParameter? standalone nested t = none := by
    simp [templateParameter?, hlist]
  rw [parameter?, htype, htemplate, h]
  rfl

/-- What opens a list is no type parameter. -/
lemma typeParameter?_of_read {depth : Nat} {r : List Parameter × Text}
    (h : (parameterList false depth).read t = some r) : typeParameter? false t = none := by
  cases depth with
  | zero => simp [parameterList] at h
  | succ depth =>
    obtain ⟨t', hword, -⟩ := Option.bind_eq_some_iff.1 h
    rw [expect?_eq_some_iff.1 hword]
    have hkey : ∀ t, typeKeyword? (keyword ++ t) = none := fun t => rfl
    simp [typeParameter?, typeWithDefault?, typeWithoutDefault?, hkey]

/-- A settled value is read the same way whatever follows its end. -/
lemma nonTypeParameter?_settled {nested : Reader (List Parameter)} (hfilled : trim u ≠ [])
    (hclosed : ClosedGroups true u) (hc : isEnd c) (s : Text)
    (htype : typeParameter? false (u ++ c :: s) = none) (hlist : nested.read (u ++ c :: s) = none) :
    parameter? false nested (u ++ c :: s) = some (.nonType (trim u), c :: s) := by
  apply parameter?_nonType htype hlist
  rw [nonTypeParameter?, hclosed.filledRun? hfilled hc, filter_atEnd u hc]
  rfl

/-- If lists are read whatever follows them, parameters are read whatever follows their end. -/
lemma parameter_ignores {depth : Nat} (hn : IgnoresRest (parameterList false depth)) :
    IgnoresAfterEnd (parameter false (parameterList false depth)) := by
  intro t p rest h hp
  change parameter? false _ t = _ at h
  simp only [parameter?, Option.orElse_eq_orElse, Option.orElse_eq_or, Option.or_eq_some_iff] at h
  rcases h with h | ⟨htype, h | ⟨-, h⟩⟩
  · obtain ⟨⟨spec, rest₀⟩, hread, heq⟩ := Option.map_eq_some_iff.1 h
    simp only [Prod.mk.injEq] at heq
    obtain ⟨u, c, rest', hrest, hc, ht, hu⟩ := typeParameter?_derives hread
    refine ⟨u, c, rest', by rw [← heq.2, hrest], hc, ht, fun s => ?_⟩
    rw [← heq.1]
    exact parameter?_type (hu.typeParameter? hc s)
  · simp only [templateParameter?, Option.bind_eq_bind, Option.bind_eq_some_iff] at h
    obtain ⟨⟨params, t₁⟩, hlist, ⟨spec, t₂⟩, hread, h⟩ := h
    simp only [Option.some.injEq, Prod.mk.injEq] at h
    rw [← h.1] at hp ⊢
    obtain ⟨u, ht, hu⟩ := hn hlist (by rwa [AllSettled, ← values])
    obtain ⟨gap, hgap, ht₁⟩ := exists_gap t₁
    obtain ⟨v, c, rest', hrest, hc, hv, hspec⟩ := typeParameter?_derives hread
    simp only at ht ht₁ hv hrest
    refine ⟨u ++ gap ++ v, c, rest', by rw [← h.2, hrest], hc, ?_, fun s => ?_⟩
    · rw [ht, ht₁, hv]
      simp only [List.append_assoc]
    · -- the type parameter after the list is found behind the same gap
      have hskip : skipLayout (gap ++ (v ++ c :: s)) = v ++ c :: s := by
        have hstart : ∀ d ∈ v.head?, isLayout d = false := by
          intro d hd
          apply head?_skipLayout t₁ d
          rw [hv, List.head?_append, Option.mem_def.1 hd]
          rfl
        rw [skipLayout_append hgap, skipLayout_append_end hc, skipLayout_eq_self hstart]
      have happend : u ++ gap ++ v ++ c :: s = u ++ (gap ++ (v ++ c :: s)) := by
        simp only [List.append_assoc]
      have hlist' := hu (gap ++ (v ++ c :: s))
      rw [happend]
      apply parameter?_template (typeParameter?_of_read hlist')
      simp only [templateParameter?, hlist', Option.bind_eq_bind, Option.bind_some, hskip,
        hspec.typeParameter? hc]
  · obtain ⟨u, c, rest', hrest, hc, ht, hpu, hfilled, -⟩ := nonTypeParameter?_run h
    have hnone : typeParameter? false t = none := Option.map_eq_none_iff.1 htype
    obtain ⟨hclosed, hdefault, hlist⟩ := hp (trim u) (by rw [hpu, values]; simp)
    rw [ht] at hnone
    refine ⟨u, c, rest', hrest, hc, ht, fun s => ?_⟩
    rw [hpu]
    exact nonTypeParameter?_settled hfilled (closedGroups_trim.1 hclosed) hc s
      (typeParameter?_eq_none hnone hc fun hb => hdefault hb.trim)
      (read_eq_none hc (fun hb => hlist hb.trim) s depth)

lemma skipLayout_cons_end (hc : isEnd c) (t : Text) : skipLayout (c :: t) = c :: t :=
  List.dropWhile_cons_of_neg (by simp [isLayout_of_isEnd hc])

/-- Parameters up to a closing bracket are read whatever follows that bracket. -/
lemma commaList_ignores {item : Reader Parameter} (hi : IgnoresAfterEnd item)
    (h : item.commaList t = some (ps, rest)) (hps : AllSettled ps) :
    ∃ u, t = u ++ rest ∧ ∀ s, item.commaList (u ++ s) = some (ps, s) := by
  fun_induction item.commaList t generalizing ps rest with
  | case1 => simp at h
  | case2 t p t₁ hread t₂ hcomma ih =>
    obtain ⟨⟨ps', rest'⟩, hmore, heq⟩ := Option.map_eq_some_iff.1 h
    simp only [Prod.mk.injEq] at heq
    rw [← heq.1] at hps ⊢
    rw [← heq.2]
    simp only [AllSettled, valuesOf, List.mem_append] at hps
    obtain ⟨u, c, r, rfl, hc, ht, hu⟩ := hi hread fun v hv => hps v (Or.inl hv)
    rw [skipLayout_cons_end hc, List.cons.injEq] at hcomma
    obtain ⟨v, hv, hrest⟩ := ih hmore fun w hw => hps w (Or.inr hw)
    obtain ⟨gap, hgap, hr⟩ := exists_gap t₂
    -- the next item starts behind the gap, since it is not empty
    have hstart : ∀ s, skipLayout (gap ++ (v ++ s)) = v ++ s := by
      intro s
      rw [skipLayout_append hgap]
      cases v with
      | nil => exact absurd (item.length_commaList (hrest [])) (by simp)
      | cons d v => exact List.dropWhile_cons_of_neg (by simp [head?_skipLayout t₂ d (by rw [hv]; rfl)])
    refine ⟨u ++ ',' :: (gap ++ v), ?_, fun s => ?_⟩
    · rw [ht, hcomma.1, hcomma.2, hr, hv]
      simp
    · have hitem := hu (gap ++ (v ++ s))
      rw [hcomma.1] at hitem
      have happend : u ++ ',' :: (gap ++ v) ++ s = u ++ ',' :: (gap ++ (v ++ s)) := by simp
      rw [happend, Reader.commaList_comma hitem, hstart, hrest]
      rfl
  | case3 t p t₁ hread t₂ hclose =>
    simp only [Option.some.injEq, Prod.mk.injEq] at h
    rw [← h.1] at hps ⊢
    rw [← h.2]
    obtain ⟨u, c, r, rfl, hc, ht, hu⟩ := hi hread fun v hv => hps v (by simp [valuesOf, hv])
    rw [skipLayout_cons_end hc, List.cons.injEq] at hclose
    refine ⟨u ++ ['>'], ?_, fun s => ?_⟩
    · rw [ht, hclose.1, hclose.2]
      simp
    · have hitem := hu s
      rw [hclose.1] at hitem
      rw [List.append_assoc]
      exact Reader.commaList_close hitem
  | case4 => simp at h

/-- A list in angles is read whatever follows it. -/
lemma angleList?_ignores {item : Reader Parameter} (hi : IgnoresAfterEnd item)
    (h : angleList? item t = some (ps, rest)) (hps : AllSettled ps) :
    ∃ u, t = u ++ rest ∧ ∀ s, angleList? item (u ++ s) = some (ps, s) := by
  obtain ⟨gap, hgap, ht⟩ := exists_gap t
  have hopening : ∀ w, skipLayout (gap ++ '<' :: w) = '<' :: w := by
    intro w
    rw [skipLayout_append hgap]
    exact List.dropWhile_cons_of_neg (by decide)
  rw [angleList?] at h
  split at h
  · rename_i t₁ hopen
    obtain ⟨gap', hgap', ht₁⟩ := exists_gap t₁
    split at h
    · rename_i t₂ hclose
      simp only [Option.some.injEq, Prod.mk.injEq] at h
      rw [← h.1, ← h.2]
      refine ⟨gap ++ '<' :: (gap' ++ ['>']), ?_, fun s => ?_⟩
      · rw [ht, hopen, ht₁, hclose]
        simp
      · have hclosing : skipLayout (gap' ++ '>' :: s) = '>' :: s := by
          rw [skipLayout_append hgap']
          exact List.dropWhile_cons_of_neg (by decide)
        have happend : gap ++ '<' :: (gap' ++ ['>']) ++ s = gap ++ '<' :: (gap' ++ '>' :: s) := by simp
        rw [happend, angleList?, hopening]
        simp only [hclosing]
    · rename_i hne
      obtain ⟨u, hu, hread⟩ := commaList_ignores hi h hps
      -- the items begin as before, neither with layout nor with the closing bracket
      obtain ⟨d, v, rfl⟩ : ∃ d v, u = d :: v := by
        cases u with
        | nil => exact absurd (item.length_commaList (hread [])) (by simp)
        | cons d v => exact ⟨d, v, rfl⟩
      have hlayout : isLayout d = false := head?_skipLayout t₁ d (by rw [hu]; rfl)
      have hd : d ≠ '>' := by
        rintro rfl
        exact hne _ hu
      refine ⟨gap ++ '<' :: (gap' ++ d :: v), ?_, fun s => ?_⟩
      · rw [ht, hopen, ht₁, hu]
        simp
      · have hitems : skipLayout (gap' ++ d :: (v ++ s)) = d :: (v ++ s) := by
          rw [skipLayout_append hgap']
          exact List.dropWhile_cons_of_neg (by simp [hlayout])
        have happend : gap ++ '<' :: (gap' ++ d :: v) ++ s = gap ++ '<' :: (gap' ++ d :: (v ++ s)) := by
          simp
        rw [happend, angleList?, hopening]
        simp only [hitems]
        split
        · rename_i r heq
          exact absurd (List.cons.inj heq).1 hd
        · exact hread s
  · simp at h

/-- The text after a list with settled values is ignored. -/
lemma parameterList_ignores (depth : Nat) : IgnoresRest (parameterList false depth) := by
  induction depth with
  | zero =>
    intro t ps rest h
    simp [parameterList] at h
  | succ depth ih =>
    intro t ps rest h hps
    obtain ⟨t₁, hword, hlist⟩ := Option.bind_eq_some_iff.1 h
    obtain ⟨u, ht, hread⟩ := angleList?_ignores (parameter_ignores ih) hlist hps
    refine ⟨keyword ++ u, ?_, fun s => ?_⟩
    · rw [expect?_eq_some_iff.1 hword, ht, List.append_assoc]
    · rw [read_parameterList_succ, List.append_assoc, expect?_append]
      exact hread s

/-! ## Open groups: some text after a list is not ignored -/

/-- Text that closes up to `n` brackets and ends a parameter. -/
def closing (n : Nat) : Text :=
  List.replicate n ')' ++ List.replicate (n + 1) '>'

/-- Closing parentheses close what is open and then do nothing. -/
lemma closedRun_replicate_paren {a k m : Nat} (hk : k ≤ m) (w : Text) :
    closedRun grouped ⟨a, k⟩ (List.replicate m ')' ++ w) =
      (closedRun grouped ⟨a, 0⟩ w).map (prepend (List.replicate m ')')) := by
  induction m generalizing k with
  | zero =>
    obtain rfl : k = 0 := by omega
    rw [List.replicate_zero, map_prepend_nil, List.nil_append]
  | succ m ih =>
    have hpush : Nesting.push grouped ⟨a, k⟩ ')' = ⟨a, k - 1⟩ := by
      cases k <;> simp [Nesting.push]
    rw [List.replicate_succ, List.cons_append, closedRun_cons (by simp [isEnd]), hpush,
      ih (by omega), map_prepend_prepend]
    rfl

/-- Of more closing brackets than are open, one ends the run. -/
lemma closedRun_replicate_angle (grouped : Bool) {a m : Nat} (ha : a ≤ m) :
    ∃ run rest, closedRun grouped ⟨a, 0⟩ (List.replicate (m + 1) '>') = some (run, '>' :: rest) := by
  induction a generalizing m with
  | zero => exact ⟨[], List.replicate m '>', by rw [List.replicate_succ, closedRun, if_pos ⟨rfl, rfl⟩]⟩
  | succ a ih =>
    obtain ⟨m, rfl⟩ : ∃ k, m = k + 1 := ⟨m - 1, by omega⟩
    obtain ⟨run, rest, h⟩ := ih (show a ≤ m by omega)
    have hpush : Nesting.push grouped ⟨a + 1, 0⟩ '>' = ⟨a, 0⟩ := by simp [Nesting.push]
    refine ⟨'>' :: run, rest, ?_⟩
    rw [List.replicate_succ, closedRun_cons (by simp [Nesting.none]), hpush, h]
    rfl

/-- One character opens one bracket at most. -/
lemma push_le (grouped : Bool) (n : Nesting) (c : Char) :
    (n.push grouped c).angles + (n.push grouped c).parens ≤ n.angles + n.parens + 1 := by
  obtain ⟨a, k⟩ := n
  rw [Nesting.push]
  split_ifs <;> dsimp only at * <;> omega

/-- In front of enough closing brackets every run is read, up to the end of a parameter. -/
lemma closedRun_closing (grouped : Bool) {x : Text} {n : Nat} (nesting : Nesting)
    (h : x.length + nesting.angles + nesting.parens ≤ n) :
    ∃ run c rest, closedRun grouped nesting (x ++ closing n) = some (run, c :: rest) ∧ isEnd c := by
  induction x generalizing nesting with
  | nil =>
    obtain ⟨a, k⟩ := nesting
    simp only [List.length_nil] at h
    obtain ⟨run, rest, hangle⟩ := closedRun_replicate_angle grouped (show a ≤ n by omega)
    refine ⟨List.replicate n ')' ++ run, '>', rest, ?_, rfl⟩
    rw [List.nil_append, closing, closedRun_replicate_paren (by omega), hangle]
    rfl
  | cons d x ih =>
    by_cases hend : nesting = .none ∧ isEnd d
    · refine ⟨[], d, x ++ closing n, ?_, hend.2⟩
      rw [List.cons_append, closedRun, if_pos hend]
    · have hpush := push_le grouped nesting d
      rw [List.length_cons] at h
      obtain ⟨run, c, rest, hrun, hc⟩ := ih (nesting.push grouped d) (by omega)
      refine ⟨d :: run, c, rest, ?_, hc⟩
      rw [List.cons_append, closedRun_cons hend, hrun]
      rfl

/-- In front of enough closing brackets only values with closed groups are read. -/
lemma nonTypeParameter?_closing {x : Text} {n : Nat} (hx : x.length ≤ n)
    (h : nonTypeParameter? false (x ++ closing n) = some (p, rest)) :
    ∀ v ∈ p.values, ClosedGroups true v := by
  obtain ⟨run, c, rest', hrun, hc⟩ := closedRun_closing true .none
    (show x.length + 0 + 0 ≤ n from hx)
  have ht := closedRun_append hrun
  by_cases hfilled : trim run = []
  · -- a blank run has no bracket in it, so the loose run is the same
    exfalso
    have hblank : ∀ d ∈ run, isBlank d := by
      obtain ⟨a, b, ha, hb, hab⟩ := exists_trim run
      rw [hfilled, List.append_nil] at hab
      intro d hd
      rw [hab] at hd
      rcases List.mem_append.1 hd with hd | hd
      · exact ha d hd
      · exact hb d hd
    have hloose : (x ++ closing n).takeWhile (!isEnd ·) = run := by
      rw [ht, List.takeWhile_append_of_pos (fun d hd => by simp [(isEnd_of_isBlank (hblank d hd)).1]),
        List.takeWhile_cons_of_neg (by simp [hc]), List.append_nil]
    have hnone : nonTypeParameter? false (x ++ closing n) = none := by
      simp [nonTypeParameter?, filledRun?, hrun, looseRun?, hloose, hfilled]
    rw [hnone] at h
    simp at h
  · have hread : filledRun? true (x ++ closing n) = some (run, c :: rest') := by
      rw [filledRun?, hrun]
      simp [hfilled]
    rw [nonTypeParameter?, hread, filter_atEnd run hc] at h
    have hp : .nonType (trim run) = p := congrArg Prod.fst (Option.some.inj h)
    obtain ⟨hcloses, -⟩ := closedRun_closes hrun
    rw [← hp, values]
    intro v hv
    rw [List.mem_singleton] at hv
    rw [hv, closedGroups_trim]
    cases hcloses with
    | done hclosed => exact hclosed

/-- Lists that end before enough closing brackets have values with closed groups. -/
def ClosesValues (lists : Reader (List Parameter)) (n : Nat) : Prop :=
  ∀ {t ps rest}, lists.read t = some (ps, rest) → t.length ≤ n + (closing n).length →
    closing n <:+ rest → ∀ v ∈ valuesOf ps, ClosedGroups true v

/-- A parameter that ends before enough closing brackets has values with closed groups. -/
lemma parameter?_closing {nested : Reader (List Parameter)} {n : Nat} (hn : ClosesValues nested n)
    (hs : nested.LeavesSuffix) (h : parameter? false nested t = some (p, rest))
    (hlength : t.length ≤ n + (closing n).length) (hrest : closing n <:+ rest) :
    ∀ v ∈ p.values, ClosedGroups true v := by
  have hsuffix : rest <:+ t := parameter_leavesSuffix hs h
  simp only [parameter?, Option.orElse_eq_orElse, Option.orElse_eq_or, Option.or_eq_some_iff] at h
  rcases h with h | ⟨-, h | ⟨-, h⟩⟩
  · obtain ⟨⟨spec, rest₀⟩, -, heq⟩ := Option.map_eq_some_iff.1 h
    have hp : .type spec = p := congrArg Prod.fst heq
    simp [← hp, values]
  · simp only [templateParameter?, Option.bind_eq_bind, Option.bind_eq_some_iff] at h
    obtain ⟨⟨params, t₁⟩, hlist, ⟨spec, t₂⟩, hread, h⟩ := h
    simp only [Option.some.injEq, Prod.mk.injEq] at h
    rw [← h.1, values]
    rw [← h.2] at hrest
    exact hn hlist hlength (hrest.trans ((typeParameter?_suffix hread).trans (skipLayout_suffix t₁)))
  · obtain ⟨x, rfl⟩ := hrest.trans hsuffix
    rw [List.length_append] at hlength
    exact nonTypeParameter?_closing (by omega) h

/-- So have all parameters up to a closing bracket. -/
lemma commaList_closing_values {item : Reader Parameter} {n : Nat} (hs : item.LeavesSuffix)
    (hi : ∀ {t p rest}, item.read t = some (p, rest) → t.length ≤ n + (closing n).length →
      closing n <:+ rest → ∀ v ∈ p.values, ClosedGroups true v)
    (h : item.commaList t = some (ps, rest)) (hlength : t.length ≤ n + (closing n).length)
    (hrest : closing n <:+ rest) : ∀ v ∈ valuesOf ps, ClosedGroups true v := by
  fun_induction item.commaList t generalizing ps rest with
  | case1 => simp at h
  | case2 t p t₁ hread t₂ hcomma ih =>
    obtain ⟨⟨ps', rest'⟩, hmore, heq⟩ := Option.map_eq_some_iff.1 h
    simp only [Prod.mk.injEq] at heq
    rw [← heq.2] at hrest
    have htail : skipLayout t₂ <:+ t₁ := (skipLayout_suffix t₂).trans
      ((List.suffix_cons ',' t₂).trans (closing_suffix_of_skipLayout hcomma))
    have hmid : closing n <:+ t₁ := hrest.trans
      ((List.suffix_cons '>' rest').trans ((commaList_closing hs hmore).trans htail))
    have hshort := (htail.trans (hs hread)).length_le
    rw [← heq.1, valuesOf]
    intro v hv
    rcases List.mem_append.1 hv with hv | hv
    · exact hi hread hlength hmid v hv
    · exact ih hmore (by omega) hrest v hv
  | case3 t p t₁ hread t₂ hclose =>
    simp only [Option.some.injEq, Prod.mk.injEq] at h
    rw [← h.2] at hrest
    rw [← h.1]
    have hmid : closing n <:+ t₁ := hrest.trans
      ((List.suffix_cons '>' t₂).trans (closing_suffix_of_skipLayout hclose))
    intro v hv
    exact hi hread hlength hmid v (by simpa [valuesOf] using hv)
  | case4 => simp at h

lemma parameterList_leavesSuffix (depth : Nat) : (parameterList standalone depth).LeavesSuffix :=
  fun h => (List.suffix_cons _ _).trans (parameterList_closing depth h)

/-- What is read in front of enough closing brackets has values with closed groups. -/
lemma parameterList_closesValues (n depth : Nat) : ClosesValues (parameterList false depth) n := by
  induction depth with
  | zero =>
    intro t ps rest h
    simp [parameterList] at h
  | succ depth ih =>
    intro t ps rest h hlength hrest
    obtain ⟨t₁, hword, hlist⟩ := Option.bind_eq_some_iff.1 h
    have hshort := (expect?_suffix hword).length_le
    have hskip := length_skipLayout_le t₁
    rw [angleList?] at hlist
    split at hlist
    · rename_i t₂ hopen
      have hskip' := length_skipLayout_le t₂
      rw [hopen, List.length_cons] at hskip
      split at hlist
      · have hps : [] = ps := congrArg Prod.fst (Option.some.inj hlist)
        simp [← hps, valuesOf]
      · exact commaList_closing_values (parameter_leavesSuffix (parameterList_leavesSuffix depth))
          (fun hread => parameter?_closing ih (parameterList_leavesSuffix depth) hread) hlist
          (by omega) hrest
    · simp at hlist

/-! ## Deciding the conditions -/

/-- Groups are closed if a run goes through to the end of the text. -/
lemma closedGroups_iff : ClosedGroups grouped u ↔ closedRun grouped .none u = some (u, []) := by
  constructor
  · intro h
    have hrun := h.closedRun_append []
    rw [List.append_nil] at hrun
    rw [hrun]
    simp [closedRun, prepend]
  · intro h
    obtain ⟨hcloses, -⟩ := closedRun_closes h
    cases hcloses with
    | done hclosed => exact hclosed

instance : Decidable (ClosedGroups grouped u) :=
  decidable_of_iff _ closedGroups_iff.symm

/-- Whether a value begins like a default can be read off its words. -/
lemma beginsDefault_iff : BeginsDefault v ↔ ∃ word ∈ ["typename".toList, "class".toList],
    ∃ t ∈ expect? word v, (t.dropWhile isNameChar).head? = some '=' := by
  constructor
  · rintro ⟨word, name, rest, hword, hchars, rfl⟩
    refine ⟨word, by simpa [IsTypeWord] using hword, name ++ '=' :: rest, ?_, ?_⟩
    · rw [List.append_assoc]
      exact expect?_append word _
    · rw [(takeWhile_name hchars (by decide) rest).2]
      rfl
  · rintro ⟨word, hword, t, ht, hsign⟩
    obtain ⟨name, hchars, -, hname, -⟩ := exists_name t
    obtain ⟨rest, hrest⟩ := List.head?_eq_some_iff.1 hsign
    refine ⟨word, name, rest, by simpa [IsTypeWord] using hword, hchars, ?_⟩
    rw [expect?_eq_some_iff.1 ht, hname, hrest, List.append_assoc]

instance : Decidable (BeginsDefault v) :=
  decidable_of_iff _ beginsDefault_iff.symm

/-- Whether a value begins like a list can be read off its first word. -/
lemma beginsList_iff :
    BeginsList v ↔ ∃ t ∈ expect? keyword v, (skipLayout t).head? = some '<' := by
  constructor
  · rintro ⟨gap, rest, hgap, rfl⟩
    refine ⟨gap ++ '<' :: rest, ?_, ?_⟩
    · rw [List.append_assoc]
      exact expect?_append keyword _
    · rw [skipLayout_append hgap]
      rfl
  · rintro ⟨t, ht, hopen⟩
    obtain ⟨gap, hgap, hgapt⟩ := exists_gap t
    obtain ⟨rest, hrest⟩ := List.head?_eq_some_iff.1 hopen
    refine ⟨gap, rest, hgap, ?_⟩
    rw [expect?_eq_some_iff.1 ht, hgapt, hrest, List.append_assoc]

instance : Decidable (BeginsList v) :=
  decidable_of_iff _ beginsList_iff.symm

end Parameter

namespace Declaration

open Parameter

variable {t : Text} {d : Declaration}

/-- **The text after a declaration** is ignored exactly when every value of the declaration has
closed groups, provided that no value begins like a type parameter with a default or like a list. -/
theorem parse?_source_append_iff (h : parse? t = some d)
    (hbegin : ∀ v ∈ valuesOf d.params, ¬BeginsDefault v ∧ ¬BeginsList v) :
    (∀ s, parse? (d.source ++ s) = some ⟨d.params, d.source, s⟩) ↔
      ∀ v ∈ valuesOf d.params, ClosedGroups true v := by
  constructor
  · intro hall
    -- in front of enough closing brackets no group stays open
    obtain ⟨⟨params, rest⟩, hread, heq⟩ := Option.map_eq_some_iff.1 (hall (closing d.source.length))
    rw [Declaration.mk.injEq] at heq
    rw [← heq.1]
    refine parameterList_closesValues d.source.length _ hread ?_ ?_
    · rw [List.length_append]
    · exact heq.2.2 ▸ List.suffix_refl _
  · intro hclosed s
    obtain ⟨⟨params, rest⟩, hread, heq⟩ := Option.map_eq_some_iff.1 h
    subst heq
    obtain ⟨u, rfl, hany⟩ := parameterList_ignores _ hread fun v hv =>
      ⟨hclosed v hv, (hbegin v hv).1, (hbegin v hv).2⟩
    have hd := Option.some.inj (h.symm.trans (parse?_of_read hread))
    rw [hd]
    exact parse?_of_read (hany s)

/-- A value with a default and with brackets in groups: no text after the declaration matters. -/
theorem parse?_source_append_iff_brackets :
    ∃ d, parse? "template<class T, typename E<(T > 0)>::U = 0> f".toList = some d ∧
      (∀ v ∈ valuesOf d.params, ¬BeginsDefault v ∧ ¬BeginsList v) ∧
      ∀ s, parse? (d.source ++ s) = some ⟨d.params, d.source, s⟩ := by
  have hread : parse? "template<class T, typename E<(T > 0)>::U = 0> f".toList =
      some ⟨[.type ⟨false, "T".toList, []⟩, .nonType "typename E<(T > 0)>::U = 0".toList],
        "template<class T, typename E<(T > 0)>::U = 0>".toList, " f".toList⟩ := by
    decide +kernel
  have hbegin : ∀ v ∈ [("typename E<(T > 0)>::U = 0".toList : Text)],
      ¬BeginsDefault v ∧ ¬BeginsList v := by
    decide +kernel
  exact ⟨_, hread, hbegin, (parse?_source_append_iff hread hbegin).2 (by decide +kernel)⟩

/-- A comparison leaves a group open: what is a declaration by itself is none in front of text with
a comma. -/
theorem parse?_source_append_comparison :
    ∃ d s, parse? "template<bool B = N < 3>".toList = some d ∧
      d.params = [.nonType "bool B = N < 3".toList] ∧ d.consumed = 24 ∧
      s = " struct S { int a, b; };".toList ∧ parse? (d.source ++ s) = none := by
  refine ⟨⟨[.nonType "bool B = N < 3".toList], "template<bool B = N < 3>".toList, []⟩, _, ?_, rfl, ?_,
    rfl, ?_⟩
  all_goals decide +kernel

end Declaration

end TemplateFolding
