import Mathlib.Data.List.Forall2
import TemplateFolding.Proofs.TrailingText
import TemplateFolding.Source.Report

/-!
# Layout does not matter

Two texts are laid out differently when one comes from the other by putting a run of layout in the
place of each run of layout. Between the tokens of a declaration layout is skipped; in a name, a
default or a value it is kept, but there a preview writes one space for each run of blanks, and
every layout character is a blank.

So each reader is run on the two texts at once: both runs fail, or both succeed with values that
look the same in a preview and leave texts that are laid out differently again. The main result is
that the two texts have the same previews.
-/

namespace TemplateFolding

open Text

/-! ## Texts that differ in layout -/

namespace Text

/-- The second text is the first one with each run of layout replaced by a run of layout. -/
inductive Relaid : Text → Text → Prop where
  | nil : Relaid [] []
  | char {c : Char} {s t : Text} : isLayout c = false → Relaid s t → Relaid (c :: s) (c :: t)
  | gap {g g' s t : Text} : g.IsGap → g ≠ [] → g'.IsGap → g' ≠ [] → Relaid s t →
      Relaid (g ++ s) (g' ++ t)

/-- A run of layout is written as one space. -/
lemma collapseFrom_gap {g : Text} (hg : g.IsGap) (hne : g ≠ []) (inRun : Bool) (t : Text) :
    collapseFrom inRun (g ++ t) = (if inRun then [] else [' ']) ++ collapseFrom true t := by
  induction g generalizing inRun with
  | nil => exact absurd rfl hne
  | cons c cs ih =>
    have hblank : isBlank c := isBlank_of_isLayout (hg c (by simp))
    have hrest : collapseFrom true (cs ++ t) = collapseFrom true t := by
      by_cases hcs : cs = []
      · rw [hcs, List.nil_append]
      · exact ih (fun d hd => hg d (List.mem_cons_of_mem _ hd)) hcs true
    cases inRun <;> simp [collapseFrom, hblank, hrest]

/-- A word does not begin with layout. -/
lemma expect?_gap {w : Char} (hw : isLayout w = false) {g : Text} (hg : g.IsGap) (hne : g ≠ [])
    (ws t : Text) : expect? (w :: ws) (g ++ t) = none := by
  obtain ⟨c, cs, rfl⟩ := List.exists_cons_of_ne_nil hne
  have hwc : w ≠ c := by
    rintro rfl
    have hlayout := hg w (by simp)
    simp [hw] at hlayout
  simp [expect?, hwc]

namespace Relaid

variable {s t s' t' : Text} {p : Char → Bool}

lemma append (h : Relaid s t) (h' : Relaid s' t') : Relaid (s ++ s') (t ++ t') := by
  induction h with
  | nil => exact h'
  | char hc _ ih => exact .char hc ih
  | gap hg hne hg' hne' _ ih =>
    simp only [List.append_assoc]
    exact .gap hg hne hg' hne' ih

lemma refl (t : Text) : Relaid t t := by
  induction t with
  | nil => exact .nil
  | cons c cs ih =>
    by_cases hc : isLayout c
    · have hgap : IsGap [c] := by simpa [IsGap] using hc
      exact .gap hgap (by simp) hgap (by simp) ih
    · exact .char (by simpa using hc) ih

/-- Layout can be changed from the other end. -/
lemma reverse (h : Relaid s t) : Relaid s.reverse t.reverse := by
  induction h with
  | nil => exact .nil
  | char hc _ ih =>
    simp only [List.reverse_cons]
    exact ih.append (.char hc .nil)
  | @gap g g' s t hg hne hg' hne' _ ih =>
    have hrun : Relaid (g.reverse ++ []) (g'.reverse ++ []) :=
      .gap (fun c hc => hg c (List.mem_reverse.1 hc)) (by simpa using hne)
        (fun c hc => hg' c (List.mem_reverse.1 hc)) (by simpa using hne') .nil
    simp only [List.append_nil] at hrun
    simp only [List.reverse_append]
    exact ih.append hrun

/-- No text is relaid to nothing, or out of nothing. -/
lemma eq_nil_iff (h : Relaid s t) : s = [] ↔ t = [] := by
  cases h with
  | nil => simp
  | char => simp
  | gap _ hne _ hne' => simp [hne, hne']

/-! ### Taking characters off the front -/

/-- Where layout goes on, what is taken off the front of both texts is relaid. -/
lemma takeWhile (hp : ∀ c, isLayout c → p c) (h : Relaid s t) :
    Relaid (s.takeWhile p) (t.takeWhile p) := by
  induction h with
  | nil => exact .nil
  | @char c _ _ hc _ ih =>
    by_cases hpc : p c
    · simp only [List.takeWhile_cons, hpc, if_true]
      exact .char hc ih
    · simp only [List.takeWhile_cons, hpc]
      exact .nil
  | gap hg hne hg' hne' _ ih =>
    rw [List.takeWhile_append_of_pos fun c hc => hp c (hg c hc),
      List.takeWhile_append_of_pos fun c hc => hp c (hg' c hc)]
    exact .gap hg hne hg' hne' ih

/-- Where layout goes on, what is left of both texts is relaid. -/
lemma dropWhile (hp : ∀ c, isLayout c → p c) (h : Relaid s t) :
    Relaid (s.dropWhile p) (t.dropWhile p) := by
  induction h with
  | nil => exact .nil
  | @char c _ _ hc hst ih =>
    by_cases hpc : p c
    · simp only [List.dropWhile_cons, hpc, if_true]
      exact ih
    · simp only [List.dropWhile_cons, hpc]
      exact .char hc hst
  | gap hg _ hg' _ _ ih =>
    rw [List.dropWhile_append_of_pos fun c hc => hp c (hg c hc),
      List.dropWhile_append_of_pos fun c hc => hp c (hg' c hc)]
    exact ih

lemma skipLayout (h : Relaid s t) : Relaid (skipLayout s) (skipLayout t) :=
  h.dropWhile fun _ hc => hc

lemma trim (h : Relaid s t) : Relaid (trim s) (trim t) := by
  have hblank : ∀ c, isLayout c → isBlank c := fun _ => isBlank_of_isLayout
  exact (((h.dropWhile hblank).reverse).dropWhile hblank).reverse

/-- Where no layout stands both texts are at their end, or go on with the same character. -/
lemma cases_of_head (h : Relaid s t) (hs : ∀ c ∈ s.head?, isLayout c = false) :
    (s = [] ∧ t = []) ∨ ∃ c s' t', s = c :: s' ∧ t = c :: t' ∧ Relaid s' t' := by
  cases h with
  | nil => exact .inl ⟨rfl, rfl⟩
  | @char c s t _ hst => exact .inr ⟨c, s, t, rfl, rfl, hst⟩
  | gap hg hne =>
    obtain ⟨c, cs, rfl⟩ := List.exists_cons_of_ne_nil hne
    have hlayout := hg c (by simp)
    simp [hs c (by simp)] at hlayout

/-- Behind layout both texts have the same character, or both are at their end. -/
lemma skipLayout_cases (h : Relaid s t) :
    (Text.skipLayout s = [] ∧ Text.skipLayout t = []) ∨
      ∃ c s' t', Text.skipLayout s = c :: s' ∧ Text.skipLayout t = c :: t' ∧ Relaid s' t' :=
  h.skipLayout.cases_of_head (head?_skipLayout s)

/-- A word without layout is found in both texts or in neither. -/
lemma expect? {word : Text} (hword : word.any isLayout = false) (h : Relaid s t) :
    Option.Rel Relaid (expect? word s) (expect? word t) := by
  induction word generalizing s t with
  | nil => exact .some h
  | cons w ws ih =>
    obtain ⟨hfirst, hrest⟩ := Bool.or_eq_false_iff.1 (List.any_cons.symm.trans hword)
    cases h with
    | nil => exact .none
    | @char c s t _ hst =>
      by_cases hw : w = c
      · simp only [Text.expect?, hw, if_true]
        exact ih hrest hst
      · simp only [Text.expect?, hw, if_false]
        exact .none
    | gap hg hne hg' hne' _ =>
      rw [expect?_gap hfirst hg hne, expect?_gap hfirst hg' hne']
      exact .none

/-! ### Writing on one line -/

/-- Collapsed blanks do not tell relaid texts apart. -/
lemma collapseFrom (inRun : Bool) (h : Relaid s t) :
    collapseFrom inRun s = collapseFrom inRun t := by
  induction h generalizing inRun with
  | nil => rfl
  | char _ _ ih => simp only [Text.collapseFrom, ih]
  | gap hg hne hg' hne' _ ih =>
    rw [collapseFrom_gap hg hne, collapseFrom_gap hg' hne', ih]

/-- Relaid texts have the same normal form. -/
lemma normalize (h : Relaid s t) : normalize s = normalize t := by
  rw [Text.normalize, Text.normalize, h.collapseFrom]

end Relaid

end Text

/-! ## Outcomes of a reader -/

section Outcomes

variable {α β : Type} {R : α → α → Prop} {S : β → β → Prop} {o o' u u' : Option α}

lemma rel_orElse (h : Option.Rel R o o') (h' : Option.Rel R u u') :
    Option.Rel R (o <|> u) (o' <|> u') := by
  cases h with
  | none => exact h'
  | some hab => exact .some hab

lemma rel_filter {p : α → Bool} (h : Option.Rel R o o') (hp : ∀ a b, R a b → p a = p b) :
    Option.Rel R (o.filter p) (o'.filter p) := by
  cases h with
  | none => exact .none
  | @some a b hab =>
    simp only [Option.filter, hp a b hab]
    split
    · exact .some hab
    · exact .none

/-- Outcomes agree if they are built from outcomes that agree, in ways that agree. -/
lemma rel_bind {f g : α → Option β} (h : Option.Rel R o o')
    (hfg : ∀ a b, R a b → Option.Rel S (f a) (g b)) : Option.Rel S (o.bind f) (o'.bind g) := by
  cases h with
  | none => exact .none
  | @some a b hab => exact hfg a b hab

lemma rel_map {f g : α → β} (h : Option.Rel R o o') (hfg : ∀ a b, R a b → S (f a) (g b)) :
    Option.Rel S (o.map f) (o'.map g) := by
  cases h with
  | none => exact .none
  | @some a b hab => exact .some (hfg a b hab)

/-- The outcomes of a reader on two texts that differ in layout: both are failures, or both are
values that `R` relates, with rests that differ in layout. -/
abbrev Agree (R : α → α → Prop) : Option (α × Text) → Option (α × Text) → Prop :=
  Option.Rel fun x y => R x.1 y.1 ∧ Relaid x.2 y.2

/-- What the reader makes of a text does not depend on the layout, up to `R`. -/
def Reader.IgnoresLayout (item : Reader α) (R : α → α → Prop) : Prop :=
  ∀ {s t}, Relaid s t → Agree R (item.read s) (item.read t)

end Outcomes

/-! ## Runs -/

namespace Parameter

variable {s t : Text} {grouped standalone : Bool} {n : Nesting}

/-- Layout opens and closes no brackets. -/
lemma push_layout {c : Char} (hc : isLayout c) : n.push grouped c = n := by
  obtain ⟨-, hopen, hparen, hclose, hclose'⟩ := isEnd_of_isBlank (isBlank_of_isLayout hc)
  simp [Nesting.push, hopen, hparen, hclose, hclose']

/-- A run goes on through layout. -/
lemma closedRun_gap {g : Text} (hg : g.IsGap) :
    closedRun grouped n (g ++ t) = (closedRun grouped n t).map (prepend g) := by
  induction g with
  | nil => simp [map_prepend_nil]
  | cons c cs ih =>
    have hc : isLayout c := hg c (by simp)
    have hend : isEnd c = false := (isEnd_of_isBlank (isBlank_of_isLayout hc)).1
    rw [List.cons_append, closedRun_cons (by simp [hend]), push_layout hc,
      ih fun d hd => hg d (List.mem_cons_of_mem _ hd), map_prepend_prepend]
    rfl

/-- A run ends at the same character of both texts. -/
lemma closedRun_relaid (h : Relaid s t) :
    Agree Relaid (closedRun grouped n s) (closedRun grouped n t) := by
  induction h generalizing n with
  | nil =>
    rw [closedRun]
    split
    · exact .some ⟨.nil, .nil⟩
    · exact .none
  | @char c s t hc hst ih =>
    by_cases hend : n = .none ∧ isEnd c
    · simp only [closedRun, hend, and_self, if_true]
      exact .some ⟨.nil, .char hc hst⟩
    · rw [closedRun_cons hend, closedRun_cons hend]
      exact rel_map ih fun _ _ hab => ⟨.char hc hab.1, hab.2⟩
  | gap hg hne hg' hne' _ ih =>
    rw [closedRun_gap hg, closedRun_gap hg']
    exact rel_map ih fun _ _ hab => ⟨.gap hg hne hg' hne' hab.1, hab.2⟩

lemma isEmpty_trim_relaid (h : Relaid s t) : (trim s).isEmpty = (trim t).isEmpty := by
  rw [Bool.eq_iff_iff, List.isEmpty_iff, List.isEmpty_iff]
  exact h.trim.eq_nil_iff

/-- A run that is not blank ends at the same character of both texts. -/
lemma filledRun?_relaid (h : Relaid s t) :
    Agree Relaid (filledRun? grouped s) (filledRun? grouped t) := by
  have hrun : Agree Relaid (closedRun grouped .none s) (closedRun grouped .none t) :=
    closedRun_relaid h
  rw [filledRun?, filledRun?]
  generalize closedRun grouped .none s = o at hrun ⊢
  generalize closedRun grouped .none t = o' at hrun ⊢
  cases hrun with
  | none => exact .none
  | @some a b hab =>
    simp only [isEmpty_trim_relaid hab.1]
    split
    · exact .none
    · exact .some hab

/-- What stands up to the next comma or bracket is relaid. -/
lemma looseRun?_relaid (h : Relaid s t) : Agree Relaid (looseRun? s) (looseRun? t) := by
  have hin : ∀ c, isLayout c → !isEnd c := fun c hc => by
    simp [(isEnd_of_isBlank (isBlank_of_isLayout hc)).1]
  simp only [looseRun?, isEmpty_trim_relaid (h.takeWhile hin)]
  split
  · exact .none
  · exact .some ⟨h.takeWhile hin, h.dropWhile hin⟩

/-- Both texts are at the end of a parameter, or neither is. -/
lemma atEnd_relaid (h : Relaid s t) : atEnd standalone s = atEnd standalone t := by
  rw [atEnd, atEnd]
  rcases h.skipLayout_cases with ⟨hs, ht⟩ | ⟨c, s', t', hs, ht, -⟩ <;> rw [hs, ht]

/-! ## Type parameters -/

lemma typeKeyword?_relaid (h : Relaid s t) :
    Option.Rel Relaid (typeKeyword? s) (typeKeyword? t) := by
  have hword : Option.Rel Relaid (expect? "typename".toList s <|> expect? "class".toList s)
      (expect? "typename".toList t <|> expect? "class".toList t) :=
    rel_orElse (h.expect? (by decide)) (h.expect? (by decide))
  rw [typeKeyword?, typeKeyword?]
  generalize (expect? "typename".toList s <|> expect? "class".toList s) = o at hword ⊢
  generalize (expect? "typename".toList t <|> expect? "class".toList t) = o' at hword ⊢
  cases hword with
  | none => exact .none
  | some hrest =>
    cases hrest with
    | nil => exact .some .nil
    | @char c s t hc hst =>
      by_cases hid : isIdentifier c
      · simp only [hid, if_true]
        exact .none
      · simp only [hid]
        exact .some (.char hc hst)
    | @gap g g' s t hg hne hg' hne' hst =>
      -- layout ends a word
      obtain ⟨c, cs, rfl⟩ := List.exists_cons_of_ne_nil hne
      obtain ⟨c', cs', rfl⟩ := List.exists_cons_of_ne_nil hne'
      have hid : ∀ {d}, isLayout d → isIdentifier d = false := fun {d} hd => by
        by_contra hcon
        simp [isLayout_of_isIdentifier (by simpa using hcon)] at hd
      simp only [List.cons_append, hid (hg c (by simp)), hid (hg' c' (by simp))]
      exact .some (.gap hg hne hg' hne' hst)

/-- Two type parameters with the same one-line form. -/
def SameSpec (a b : TypeSpec) : Prop :=
  a.render = b.render

/-- Type parameters with relaid names and defaults have the same one-line form. -/
lemma sameSpec_of_relaid {pack : Bool} {name name' value value' : Text} (hname : Relaid name name')
    (hvalue : Relaid value value') : SameSpec ⟨pack, name, value⟩ ⟨pack, name', value'⟩ := by
  simp only [SameSpec, TypeSpec.render, hname.normalize, hvalue.normalize]

/-- A type with its default is read off both texts alike. -/
lemma typeWithDefault?_relaid (h : Relaid s t) :
    Agree SameSpec (typeWithDefault? s) (typeWithDefault? t) := by
  refine rel_bind (typeKeyword?_relaid h) fun u v huv => ?_
  have hname := (huv.takeWhile fun _ => isNameChar_of_isLayout).trim
  have hhead : ∀ c ∈ (u.dropWhile isNameChar).head?, isLayout c = false := by
    intro c hc
    obtain ⟨-, -, -, -, hstop⟩ := exists_name u
    exact isLayout_of_isNameChar_eq_false (hstop c hc)
  rcases (huv.dropWhile fun _ => isNameChar_of_isLayout).cases_of_head hhead with
    ⟨hu, hv⟩ | ⟨c, u', v', hu, hv, huv'⟩
  · simp only [hu, hv]
    exact .none
  · simp only [hu, hv]
    by_cases hc : c = '='
    · subst hc
      exact rel_bind (filledRun?_relaid huv'.skipLayout) fun a b hab =>
        .some ⟨sameSpec_of_relaid hname hab.1.trim, hab.2⟩
    · split
      · rename_i heq
        exact absurd (List.cons.inj heq).1 hc
      · split
        · rename_i heq
          exact absurd (List.cons.inj heq).1 hc
        · exact .none

lemma typeWithoutDefault?_relaid (h : Relaid s t) :
    Agree SameSpec (typeWithoutDefault? s) (typeWithoutDefault? t) := by
  refine rel_bind (typeKeyword?_relaid h) fun u v huv => ?_
  have hdots : Option.Rel Relaid (expect? "...".toList (skipLayout u))
      (expect? "...".toList (skipLayout v)) := huv.skipLayout.expect? (by decide)
  have hrest : ∀ {a b}, Relaid a b →
      SameSpec ⟨(expect? "...".toList (skipLayout u)).isSome, trim (a.takeWhile isNameChar), []⟩
        ⟨(expect? "...".toList (skipLayout u)).isSome, trim (b.takeWhile isNameChar), []⟩ ∧
      Relaid (a.dropWhile isNameChar) (b.dropWhile isNameChar) := fun hab =>
    ⟨sameSpec_of_relaid (hab.takeWhile fun _ => isNameChar_of_isLayout).trim .nil,
      hab.dropWhile fun _ => isNameChar_of_isLayout⟩
  dsimp only
  generalize expect? "...".toList (skipLayout u) = o at hdots hrest ⊢
  generalize expect? "...".toList (skipLayout v) = o' at hdots ⊢
  cases hdots with
  | none => exact .some (hrest huv.skipLayout.skipLayout)
  | some hab => exact .some (hrest hab.skipLayout)

lemma typeParameter?_relaid (h : Relaid s t) :
    Agree SameSpec (typeParameter? standalone s) (typeParameter? standalone t) :=
  rel_orElse (rel_filter (typeWithDefault?_relaid h) fun _ _ hab => atEnd_relaid hab.2)
    (rel_filter (typeWithoutDefault?_relaid h) fun _ _ hab => atEnd_relaid hab.2)

/-! ## Parameters and lists of them -/

lemma render_type (spec : TypeSpec) : render (.type spec) = spec.render := rfl

lemma render_nonType (value : Text) : render (.nonType value) = normalize value := rfl

lemma render_template (ps : List Parameter) (spec : TypeSpec) : render (.template ps spec) =
    "template<".toList ++ renderList ps ++ "> ".toList ++ spec.render := rfl

/-- Two parameters that a preview does not tell apart. -/
structure Same (p q : Parameter) : Prop where
  render : p.render = q.render
  isNonType : p.isNonType = q.isNonType

/-- Lists of parameters that a preview does not tell apart are written the same way. -/
lemma renderList_same {ps qs : List Parameter} (h : List.Forall₂ Same ps qs) :
    renderList ps = renderList qs := by
  induction h with
  | nil => rfl
  | @cons p q ps qs hpq hrest ih =>
    cases hrest with
    | nil => simp only [renderList, hpq.render]
    | cons => rw [renderList, renderList, hpq.render, ih]

variable {nested : Reader (List Parameter)} {item : Reader Parameter}

lemma templateParameter?_relaid (hn : nested.IgnoresLayout (List.Forall₂ Same)) (h : Relaid s t) :
    Agree Same (templateParameter? standalone nested s) (templateParameter? standalone nested t) := by
  refine rel_bind (hn h) fun a b hab => ?_
  refine rel_bind (typeParameter?_relaid hab.2.skipLayout) fun c d hcd => ?_
  have hspec : c.1.render = d.1.render := hcd.1
  have hsame : Same (.template a.1 c.1) (.template b.1 d.1) :=
    ⟨by rw [render_template, render_template, renderList_same hab.1, hspec], rfl⟩
  exact .some ⟨hsame, hcd.2⟩

lemma nonTypeParameter?_relaid (h : Relaid s t) :
    Agree Same (nonTypeParameter? standalone s) (nonTypeParameter? standalone t) := by
  refine rel_map (rel_orElse (rel_filter (filledRun?_relaid h) fun _ _ hab => atEnd_relaid hab.2)
    (rel_filter (looseRun?_relaid h) fun _ _ hab => atEnd_relaid hab.2)) fun a b hab => ?_
  have hsame : Same (.nonType (trim a.1)) (.nonType (trim b.1)) :=
    ⟨by rw [render_nonType, render_nonType, hab.1.trim.normalize], rfl⟩
  exact ⟨hsame, hab.2⟩

/-- A parameter is read off both texts alike, if the lists in it are. -/
lemma parameter_ignoresLayout (hn : nested.IgnoresLayout (List.Forall₂ Same)) :
    (parameter standalone nested).IgnoresLayout Same := by
  intro s t h
  refine rel_orElse (rel_map (typeParameter?_relaid h) fun a b hab => ?_)
    (rel_orElse (templateParameter?_relaid hn h) (nonTypeParameter?_relaid h))
  have hspec : a.1.render = b.1.render := hab.1
  have hsame : Same (.type a.1) (.type b.1) := ⟨by rw [render_type, render_type, hspec], rfl⟩
  exact ⟨hsame, hab.2⟩

end Parameter

/-- Parameters up to a closing bracket, one at a time. -/
lemma Reader.commaList_eq {α : Type} (item : Reader α) (t : Text) :
    item.commaList t = (item.read t).bind fun x =>
      match skipLayout x.2 with
      | ',' :: rest => (item.commaList (skipLayout rest)).map fun (as, r) => (x.1 :: as, r)
      | '>' :: rest => some ([x.1], rest)
      | _ => none := by
  rw [Reader.commaList]
  split
  · rename_i hread
    rw [hread]
    rfl
  · rename_i a rest hread
    rw [hread]
    simp only [Option.bind_some]
    split <;> simp_all

/-- Parameters up to a closing bracket are read off both texts alike. -/
lemma Reader.IgnoresLayout.commaList {α : Type} {R : α → α → Prop} {item : Reader α}
    (hi : item.IgnoresLayout R) {s t : Text} (h : Relaid s t) :
    Agree (List.Forall₂ R) (item.commaList s) (item.commaList t) := by
  -- by induction on the length of the first text: the rest after an item is shorter
  induction hlen : s.length using Nat.strong_induction_on generalizing s t with
  | _ n ih =>
    have hitem := hi h
    have hshort : ∀ a, item.read s = some a → a.2.length < n :=
      fun _ hread => hlen ▸ item.shorter hread
    rw [item.commaList_eq, item.commaList_eq]
    generalize item.read s = o at hitem hshort ⊢
    generalize item.read t = o' at hitem ⊢
    cases hitem with
    | none => exact .none
    | @some a b hab =>
      have hlt := hshort a rfl
      simp only [Option.bind_some]
      rcases hab.2.skipLayout_cases with ⟨ha, hb⟩ | ⟨c, s', t', ha, hb, hst⟩
      · simp only [ha, hb]
        exact .none
      · have hle := length_skipLayout_le a.2
        simp only [ha, hb, List.length_cons] at hle ⊢
        by_cases hcomma : c = ','
        · subst hcomma
          have hle' := length_skipLayout_le s'
          exact rel_map (ih _ (by omega) hst.skipLayout rfl) fun x y hxy =>
            ⟨.cons hab.1 hxy.1, hxy.2⟩
        · by_cases hclose : c = '>'
          · subst hclose
            exact .some ⟨.cons hab.1 .nil, hst⟩
          · split <;> simp_all

namespace Parameter

variable {s t : Text} {standalone : Bool} {item : Reader Parameter}

/-- A list in angles is read off both texts alike. -/
lemma angleList?_relaid (hi : item.IgnoresLayout Same) (h : Relaid s t) :
    Agree (List.Forall₂ Same) (angleList? item s) (angleList? item t) := by
  rw [angleList?, angleList?]
  rcases h.skipLayout_cases with ⟨hs, ht⟩ | ⟨c, s', t', hs, ht, hst⟩
  · simp only [hs, ht]
    exact .none
  · simp only [hs, ht]
    by_cases hopen : c = '<'
    · subst hopen
      rcases hst.skipLayout_cases with ⟨hs', ht'⟩ | ⟨d, u, v, hs', ht', huv⟩
      · simp only [hs', ht']
        exact hi.commaList .nil
      · have hlist := hi.commaList hst.skipLayout
        simp only [hs', ht'] at hlist ⊢
        by_cases hclose : d = '>'
        · subst hclose
          exact .some ⟨.nil, huv⟩
        · split <;> split <;> simp_all
    · split <;> simp_all

/-- A list is read off both texts alike, however deep lists nest. -/
lemma parameterList_ignoresLayout (depth : Nat) :
    (parameterList standalone depth).IgnoresLayout (List.Forall₂ Same) := by
  induction depth with
  | zero => exact fun _ => .none
  | succ depth ih =>
    intro s t h
    exact rel_bind (h.expect? (by decide)) fun _ _ hab =>
      angleList?_relaid (parameter_ignoresLayout ih) hab

end Parameter

/-- A declaration is read off both texts alike, and relaid text follows it. -/
lemma Declaration.parse?_relaid {s t : Text} (h : Relaid s t) :
    Option.Rel (fun d d' => List.Forall₂ Parameter.Same d.params d'.params ∧ Relaid d.rest d'.rest)
      (parse? s) (parse? t) :=
  rel_map (Parameter.parameterList_ignoresLayout Parameter.maxNesting h) fun _ _ hab => hab

/-! ## The search and its report -/

namespace Finding

variable {byte : Nat} {point : Point} {c : Char} {cs : Text}

/-- Where the keyword does not stand, the search goes on with the next character. -/
lemma allFrom_miss (hword : expect? Parameter.keyword (c :: cs) = none) :
    allFrom byte point (c :: cs) =
      allFrom (byte + c.utf8Size) (pointAfter point [c]) cs := by
  rw [allFrom]
  split <;> simp_all

/-- Where a declaration stands, it is found, and the search goes on behind it. -/
lemma allFrom_hit {after : Text} (hword : expect? Parameter.keyword (c :: cs) = some after)
    {d : Declaration} (hread : Declaration.parse? (c :: cs) = some d) :
    allFrom byte point (c :: cs) =
      ⟨byte, byte + d.consumed, d.source, ⟨point, pointAfter point d.source⟩, d.params⟩ ::
        allFrom (byte + d.consumed) (pointAfter point d.source) d.rest := by
  rw [allFrom]
  split
  · simp_all
  · split <;> simp_all

/-- Where the keyword stands without a declaration, the search goes on behind the keyword. -/
lemma allFrom_pass {after : Text} (hword : expect? Parameter.keyword (c :: cs) = some after)
    (hread : Declaration.parse? (c :: cs) = none) :
    allFrom byte point (c :: cs) = allFrom (byte + Parameter.keyword.byteLength)
      (pointAfter point Parameter.keyword) after := by
  rw [allFrom]
  split
  · simp_all
  · split <;> simp_all

/-- No declaration starts in layout. -/
lemma exists_allFrom_gap {g : Text} (hg : g.IsGap) (byte : Nat) (point : Point) (t : Text) :
    ∃ byte' point', allFrom byte point (g ++ t) = allFrom byte' point' t := by
  induction g generalizing byte point with
  | nil => exact ⟨byte, point, rfl⟩
  | cons c cs ih =>
    have hword : expect? Parameter.keyword (c :: cs ++ t) = none :=
      expect?_gap (by decide) hg (by simp) _ t
    obtain ⟨byte', point', heq⟩ := ih (fun d hd => hg d (List.mem_cons_of_mem _ hd))
      (byte + c.utf8Size) (pointAfter point [c])
    exact ⟨byte', point', (allFrom_miss hword).trans heq⟩

/-- Two findings of declarations that a preview does not tell apart. -/
def Same (f f' : Finding) : Prop :=
  List.Forall₂ Parameter.Same f.occurrence.params f'.occurrence.params

/-- In relaid texts the same declarations are found. -/
lemma allFrom_relaid {s t : Text} (h : Relaid s t) (byte byte' : Nat) (point point' : Point) :
    List.Forall₂ Same (allFrom byte point s) (allFrom byte' point' t) := by
  -- by induction on the length of the first text, since the search jumps over declarations
  induction hlen : s.length using Nat.strong_induction_on
    generalizing s t byte byte' point point' with
  | _ n ih =>
    cases h with
    | nil => simp [allFrom]
    | @char c s t hc hst =>
      have hword : Option.Rel Relaid (expect? Parameter.keyword (c :: s))
          (expect? Parameter.keyword (c :: t)) := (Relaid.char hc hst).expect? (by decide)
      have hread := Declaration.parse?_relaid (Relaid.char hc hst)
      generalize hw : expect? Parameter.keyword (c :: s) = o at hword
      generalize hw' : expect? Parameter.keyword (c :: t) = o' at hword
      generalize hr : Declaration.parse? (c :: s) = d at hread
      generalize hr' : Declaration.parse? (c :: t) = d' at hread
      rw [List.length_cons] at hlen
      cases hword with
      | none =>
        rw [allFrom_miss hw, allFrom_miss hw']
        exact ih _ (by omega) hst _ _ _ _ rfl
      | some hafter =>
        cases hread with
        | none =>
          have hlt := congrArg List.length (expect?_eq_some_iff.1 hw)
          have hpos : 0 < Parameter.keyword.length := by decide
          rw [List.length_append, List.length_cons] at hlt
          rw [allFrom_pass hw hr, allFrom_pass hw' hr']
          exact ih _ (by omega) hafter _ _ _ _ rfl
        | some hdd =>
          have hlt := Declaration.length_rest_lt hr
          rw [List.length_cons] at hlt
          rw [allFrom_hit hw hr, allFrom_hit hw' hr']
          exact .cons hdd.1 (ih _ (by omega) hdd.2 _ _ _ _ rfl)
    | @gap g g' s t hg hne hg' _ hst =>
      obtain ⟨b, p, hs⟩ := exists_allFrom_gap hg byte point s
      obtain ⟨b', p', ht⟩ := exists_allFrom_gap hg' byte' point' t
      have hpos := List.length_pos_iff.2 hne
      rw [List.length_append] at hlen
      rw [hs, ht]
      exact ih _ (by omega) hst _ _ _ _ rfl

end Finding

/-- Two parameter lists that a preview does not tell apart have the same preview, or are refused
one for the same reason. -/
lemma Preview.ofParams_same {ps qs : List Parameter} (h : List.Forall₂ Parameter.Same ps qs) :
    ofParams ps = ofParams qs := by
  have hall : ps.all Parameter.isNonType = qs.all Parameter.isNonType := by
    induction h with
    | nil => rfl
    | cons hpq _ ih => rw [List.all_cons, List.all_cons, hpq.isNonType, ih]
  have hempty : ps.isEmpty = qs.isEmpty := by cases h <;> rfl
  rw [ofParams, ofParams, hempty, hall, Parameter.renderList_same h]

namespace Entry

/-- Texts that differ in layout have the same declarations as far as a preview shows them: as many,
and in order each with the same preview or the same reason for having none, and with as many
parameters. -/
theorem all_relaid {s t : Text} (h : Relaid s t) :
    List.Forall₂ (fun e e' : Entry => e.preview = e'.preview ∧ e.skipped = e'.skipped ∧
      e.params.length = e'.params.length) (all s) (all t) := by
  rw [all, all, List.forall₂_map_left_iff, List.forall₂_map_right_iff]
  refine (Finding.allFrom_relaid h 0 0 .origin .origin).imp fun f f' hsame => ?_
  have hpreview := Preview.ofParams_same hsame
  refine ⟨?_, ?_, hsame.length_eq⟩
  · simp only [ofOccurrence, hpreview]
  · simp only [ofOccurrence, hpreview]

/-- A line break in a default becomes a space, and the space after a keyword a line break. -/
theorem all_relaid_default :
    Relaid "template<class T = a\r\n +b>".toList "template<class\n\tT = a +b>".toList ∧
      List.Forall₂ (fun e e' : Entry => e.preview = e'.preview ∧ e.skipped = e'.skipped ∧
        e.params.length = e'.params.length) (all "template<class T = a\r\n +b>".toList)
        (all "template<class\n\tT = a +b>".toList) := by
  have hblank : IsGap [' '] := by simp [IsGap, isLayout]
  have hrelaid : Relaid
      ("template<class".toList ++ ([' '] ++ ("T = a".toList ++ (['\r', '\n', ' '] ++ "+b>".toList))))
      ("template<class".toList ++ (['\n', '\t'] ++ ("T = a".toList ++ ([' '] ++ "+b>".toList)))) :=
    (Relaid.refl _).append (.gap hblank (by simp) (by simp [IsGap, isLayout]) (by simp)
      ((Relaid.refl _).append (.gap (by simp [IsGap, isLayout]) (by simp) hblank (by simp)
        (Relaid.refl _))))
  exact ⟨hrelaid, all_relaid hrelaid⟩

end Entry

end TemplateFolding
