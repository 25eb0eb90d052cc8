import Mathlib.Data.List.Chain
import TemplateFolding.Proofs.ScreenText
import TemplateFolding.Template.Preview

/-!
# Previews are normal forms

Normalizing writes every run of blanks as one space and leaves none at either end. A text of that
kind is `Normal`, and these texts are the ones that normalizing leaves alone.

A preview is put together from normalized pieces, some of which may be empty, with separators that
have spaces of their own. No two of these spaces meet: a piece that could be empty has no space of a
separator on one side of it at least. So a preview is normal, and since nothing but the normal forms
of names, defaults and values goes into it, parameters with the same normal forms have the same
preview.
-/

namespace TemplateFolding

open Text

/-! ## Normal texts -/

namespace Text

/-- Every blank of a text is a space, and no two of them are next to each other. -/
structure SingleSpaced (t : Text) : Prop where
  spaces : ∀ c ∈ t, isBlank c = true → c = ' '
  apart : t.IsChain fun c d => ¬(c = ' ' ∧ d = ' ')

/-- A text does not start with a blank. -/
def StartsSolid (t : Text) : Prop :=
  ∀ c ∈ t.head?, isBlank c = false

/-- A text does not end in a blank. -/
def EndsSolid (t : Text) : Prop :=
  ∀ c ∈ t.getLast?, isBlank c = false

/-- A text on one line: blanks are single spaces between other characters. -/
structure Normal (t : Text) : Prop extends SingleSpaced t where
  startsSolid : t.StartsSolid
  endsSolid : t.EndsSolid

variable {t u v : Text}

lemma ne_space_of_solid {c : Char} (h : isBlank c = false) : c ≠ ' ' := by
  rintro rfl
  exact absurd h (by decide)

namespace SingleSpaced

lemma space : SingleSpaced [' '] :=
  ⟨by simp, .singleton _⟩

lemma part (h : t.SingleSpaced) (hu : u <:+: t) : u.SingleSpaced where
  spaces := fun c hc => h.spaces c (hu.subset hc)
  apart := List.IsChain.infix h.apart hu

/-- Single-spaced texts, put together, are single-spaced unless blanks meet. -/
lemma append (ht : t.SingleSpaced) (hu : u.SingleSpaced) (hseam : t.EndsSolid ∨ u.StartsSolid) :
    (t ++ u).SingleSpaced where
  spaces := by
    intro c hc
    rcases List.mem_append.1 hc with hc | hc
    · exact ht.spaces c hc
    · exact hu.spaces c hc
  apart := by
    refine ht.apart.append hu.apart fun c hc d hd => ?_
    rintro ⟨hspace, hspace'⟩
    rcases hseam with hsolid | hsolid
    · exact ne_space_of_solid (hsolid c hc) hspace
    · exact ne_space_of_solid (hsolid d hd) hspace'

/-- In a single-spaced text no two spaces meet. -/
lemma not_two_spaces (h : t.SingleSpaced) : ¬[' ', ' '] <:+: t := by
  intro hspaces
  have hpair := List.IsChain.infix h.apart hspaces
  simp at hpair

/-- None of the characters that end a line is left. -/
lemma lines_eq (h : t.SingleSpaced) : t.lines = [t] := by
  refine lines_of_notMem fun hfeed => ?_
  exact absurd (h.spaces '\n' hfeed (by decide)) (by decide)

end SingleSpaced

lemma StartsSolid.append (ht : t.StartsSolid) (hu : u.StartsSolid) : (t ++ u).StartsSolid := by
  cases t with
  | nil => exact hu
  | cons c t => exact ht

lemma StartsSolid.append_of_ne_nil (ht : t.StartsSolid) (hne : t ≠ []) : (t ++ u).StartsSolid := by
  cases t with
  | nil => exact absurd rfl hne
  | cons c t => exact ht

/-- The front of a text that does not start with a blank does not either. -/
lemma StartsSolid.front (h : t.StartsSolid) (hu : u <+: t) : u.StartsSolid := by
  obtain ⟨v, rfl⟩ := hu
  cases u with
  | nil => simp [StartsSolid]
  | cons c u => exact h

lemma EndsSolid.append_of_ne_nil (hu : u.EndsSolid) (hne : u ≠ []) : (t ++ u).EndsSolid := by
  intro c hc
  rw [List.getLast?_append_of_ne_nil t hne] at hc
  exact hu c hc

namespace Normal

lemma nil : Normal [] :=
  ⟨⟨by simp, .nil⟩, by simp [StartsSolid], by simp [EndsSolid]⟩

/-- A text without blanks is normal. -/
lemma of_solid (h : t.all (fun c => !isBlank c) = true) : t.Normal := by
  have hsolid : ∀ c ∈ t, isBlank c = false := by simpa using h
  have hapart : t.Pairwise fun c d => ¬(c = ' ' ∧ d = ' ') :=
    List.pairwise_of_forall_mem_list fun c hc _ _ hspace =>
      ne_space_of_solid (hsolid c hc) hspace.1
  exact ⟨⟨fun c hc hblank => absurd hblank (by simp [hsolid c hc]), hapart.isChain⟩,
    fun c hc => hsolid c (List.mem_of_mem_head? hc),
    fun c hc => hsolid c (List.mem_of_getLast? hc)⟩

/-- Normal texts, put together, are normal: there are no blanks at the seam. -/
lemma append (ht : t.Normal) (hu : u.Normal) : (t ++ u).Normal where
  toSingleSpaced := ht.toSingleSpaced.append hu.toSingleSpaced (Or.inr hu.startsSolid)
  startsSolid := ht.startsSolid.append hu.startsSolid
  endsSolid := by
    cases u with
    | nil => rw [List.append_nil]; exact ht.endsSolid
    | cons c u => exact hu.endsSolid.append_of_ne_nil (by simp)

/-- Between two texts that are not empty there may be spaces at both ends of what joins them. -/
lemma joined (ht : t.Normal) (hu : u.Normal) (htne : t ≠ []) (hune : u ≠ [])
    (hv : v.SingleSpaced) : (t ++ v ++ u).Normal where
  toSingleSpaced := (ht.toSingleSpaced.append hv (Or.inl ht.endsSolid)).append hu.toSingleSpaced
    (Or.inr hu.startsSolid)
  startsSolid := by
    rw [List.append_assoc]
    exact ht.startsSolid.append_of_ne_nil htne
  endsSolid := hu.endsSolid.append_of_ne_nil hune

end Normal

/-! ## Normalizing -/

/-- Collapsing leaves single spaces, and none in front in the middle of a run. -/
lemma singleSpaced_collapseFrom (inRun : Bool) (t : Text) :
    (collapseFrom inRun t).SingleSpaced ∧ (inRun = true → (collapseFrom inRun t).StartsSolid) := by
  fun_induction collapseFrom inRun t with
  | case1 => exact ⟨Normal.nil.toSingleSpaced, fun _ => Normal.nil.startsSolid⟩
  | case2 c cs hblank ih => exact ih
  | case3 inRun c cs hblank hrun ih =>
    obtain ⟨hspaced, hsolid⟩ := ih
    exact ⟨SingleSpaced.space.append hspaced (Or.inr (hsolid rfl)), fun h => absurd h hrun⟩
  | case4 inRun c cs hblank ih =>
    have hc : isBlank c = false := by simpa using hblank
    have hone : SingleSpaced [c] := ⟨by simp [hc], .singleton _⟩
    exact ⟨hone.append ih.1 (Or.inl (by simp [EndsSolid, hc])), fun _ => by simp [StartsSolid, hc]⟩

/-- There is nothing to collapse in a single-spaced text. -/
lemma collapseFrom_of_singleSpaced {inRun : Bool} (h : t.SingleSpaced)
    (hsolid : inRun = true → t.StartsSolid) : collapseFrom inRun t = t := by
  induction t generalizing inRun with
  | nil => rfl
  | cons c t ih =>
    have hrest : SingleSpaced t := h.part (List.suffix_cons c t).isInfix
    unfold collapseFrom
    split_ifs with hblank hrun
    · exact absurd hblank (by simp [hsolid hrun c rfl])
    · have hspace : c = ' ' := h.spaces c (List.mem_cons_self ..) hblank
      -- what follows a space is not one, and so is no blank
      have hnext : StartsSolid t := by
        intro d hd
        by_contra hcon
        have hd' : d = ' ' :=
          hrest.spaces d (List.mem_of_mem_head? hd) (by simpa using hcon)
        exact h.apart.rel_head? hd ⟨hspace, hd'⟩
      rw [ih hrest fun _ => hnext, hspace]
    · rw [ih hrest (by simp)]

lemma startsSolid_trimStart (t : Text) : (trimStart t).StartsSolid := by
  intro c hc
  have hhead := List.head?_dropWhile_not isBlank t
  rw [show (t.dropWhile isBlank).head? = some c from hc] at hhead
  exact hhead

lemma endsSolid_trimEnd (t : Text) : (trimEnd t).EndsSolid := by
  intro c hc
  rw [trimEnd, List.getLast?_reverse] at hc
  exact startsSolid_trimStart t.reverse c hc

lemma StartsSolid.trimStart_eq (h : t.StartsSolid) : trimStart t = t := by
  cases t with
  | nil => rfl
  | cons c t => exact List.dropWhile_cons_of_neg (by simp [h c rfl])

lemma EndsSolid.trimEnd_eq (h : t.EndsSolid) : trimEnd t = t := by
  have hreverse : StartsSolid t.reverse := by
    intro c hc
    rw [List.head?_reverse] at hc
    exact h c hc
  rw [trimEnd, show t.reverse.dropWhile isBlank = t.reverse from hreverse.trimStart_eq,
    List.reverse_reverse]

lemma trimEnd_isPrefix (t : Text) : trimEnd t <+: t := by
  rw [trimEnd, ← List.reverse_suffix, List.reverse_reverse]
  exact List.dropWhile_suffix _

/-- What has been normalized is normal. -/
theorem normal_normalize (t : Text) : (normalize t).Normal := by
  have hspaced := (singleSpaced_collapseFrom false t).1
  have hstart := startsSolid_trimStart (collapseFrom false t)
  refine ⟨hspaced.part ?_, hstart.front (trimEnd_isPrefix _), endsSolid_trimEnd _⟩
  exact (trimEnd_isPrefix _).isInfix.trans (List.dropWhile_suffix _).isInfix

/-- There is nothing to normalize in a normal text. -/
theorem Normal.normalize_eq (h : t.Normal) : normalize t = t := by
  rw [normalize, collapseFrom_of_singleSpaced h.toSingleSpaced (by simp), trim,
    h.startsSolid.trimStart_eq, h.endsSolid.trimEnd_eq]

/-- Normalizing twice is normalizing. -/
lemma normalize_normalize (t : Text) : normalize (normalize t) = normalize t :=
  (normal_normalize t).normalize_eq

end Text

/-! ## Parameters -/

namespace TypeSpec

/-- What a type parameter declares, with name and default in their normal forms. -/
def normalized (s : TypeSpec) : TypeSpec :=
  ⟨s.isPack, normalize s.name, normalize s.default⟩

/-- Normal forms have no part in how a type parameter is written. -/
lemma render_normalized (s : TypeSpec) : s.normalized.render = s.render := by
  unfold render normalized
  dsimp only
  rw [normalize_normalize, normalize_normalize]

/-- A name is never missing, so there is always something before a default. -/
lemma normal_render (s : TypeSpec) : s.render.Normal ∧ s.render ≠ [] := by
  have hdots : Normal (if s.isPack then "...".toList else []) := by
    split_ifs
    · exact .of_solid (by decide)
    · exact .nil
  have hname : Normal (if (normalize s.name).isEmpty then ['_'] else normalize s.name) ∧
      (if (normalize s.name).isEmpty then ['_'] else normalize s.name) ≠ [] := by
    split_ifs with hempty
    · exact ⟨.of_solid (by decide), by simp⟩
    · exact ⟨normal_normalize _, by simpa using hempty⟩
  have hfront := hdots.append hname.1
  have hne := List.append_ne_nil_of_right_ne_nil (if s.isPack then "...".toList else []) hname.2
  unfold render
  dsimp only
  by_cases hdefault : (normalize s.default).isEmpty
  · rw [if_pos hdefault, List.append_nil]
    exact ⟨hfront, hne⟩
  · rw [if_neg hdefault, ← List.append_assoc]
    have hequals : Normal ['='] := .of_solid (by decide)
    have hglue : SingleSpaced " = ".toList :=
      SingleSpaced.space.append (hequals.toSingleSpaced.append .space (Or.inl hequals.endsSolid))
        (Or.inr (hequals.startsSolid.append_of_ne_nil (by simp)))
    have hsome : normalize s.default ≠ [] := by simpa using hdefault
    exact ⟨hfront.joined (normal_normalize _) hne hsome hglue,
      List.append_ne_nil_of_right_ne_nil _ hsome⟩

end TypeSpec

namespace Parameter

mutual

/-- A parameter with all its texts in their normal forms. -/
def normalized : Parameter → Parameter
  | .type spec => .type spec.normalized
  | .nonType value => .nonType (normalize value)
  | .template params spec => .template (normalizedList params) spec.normalized

/-- Parameters with all their texts in their normal forms. -/
def normalizedList : List Parameter → List Parameter
  | [] => []
  | p :: ps => normalized p :: normalizedList ps

end

/-- Bringing texts to their normal forms does not change the kind of a parameter. -/
lemma isNonType_normalized (p : Parameter) : p.normalized.isNonType = p.isNonType := by
  cases p <;> rfl

mutual

/-- A parameter is written the same way when its texts are in their normal forms. -/
theorem render_normalized : (p : Parameter) → p.normalized.render = p.render
  | .type spec => by
    unfold normalized render
    exact spec.render_normalized
  | .nonType value => by
    unfold normalized render
    exact normalize_normalize value
  | .template params spec => by
    unfold normalized render
    rw [renderList_normalizedList params, spec.render_normalized]

/-- A list is written the same way when its texts are in their normal forms. -/
theorem renderList_normalizedList : (ps : List Parameter) →
    renderList (normalizedList ps) = renderList ps
  | [] => by rw [normalizedList]
  | [p] => by
    unfold normalizedList normalizedList renderList
    exact render_normalized p
  | p :: q :: ps => by
    have hrest := renderList_normalizedList (q :: ps)
    unfold normalizedList at hrest ⊢
    rw [normalizedList, renderList, renderList, render_normalized p, hrest]

end

/-- What stands between `template<` and `>` may start or end with a space. -/
lemma normal_enclosed {t : Text} (h : t.SingleSpaced) :
    Normal ("template<".toList ++ t ++ ['>']) := by
  have hopen : Normal "template<".toList := .of_solid (by decide)
  have hclose : Normal ['>'] := .of_solid (by decide)
  exact hopen.joined hclose (by simp) (by simp) h

mutual

/-- A parameter is written normally. -/
theorem normal_render : (p : Parameter) → p.render.Normal
  | .type spec => by
    unfold render
    exact spec.normal_render.1
  | .nonType value => by
    unfold render
    exact normal_normalize value
  | .template params spec => by
    have hlist := normal_enclosed (singleSpaced_renderList params).1
    have hall := hlist.joined spec.normal_render.1 (by simp) spec.normal_render.2 .space
    unfold render
    simpa using hall

/-- A comma is not blank, so the spaces after commas stand alone even where a parameter is empty. -/
theorem singleSpaced_renderList : (ps : List Parameter) →
    (renderList ps).SingleSpaced ∧ (renderList ps).StartsSolid
  | [] => by
    rw [renderList]
    exact ⟨Normal.nil.toSingleSpaced, Normal.nil.startsSolid⟩
  | [p] => by
    rw [renderList]
    exact ⟨(normal_render p).toSingleSpaced, (normal_render p).startsSolid⟩
  | p :: q :: ps => by
    obtain ⟨hspaced, hsolid⟩ := singleSpaced_renderList (q :: ps)
    have hp := normal_render p
    have hcomma : Normal [','] := .of_solid (by decide)
    have hglue : SingleSpaced ", ".toList :=
      hcomma.toSingleSpaced.append .space (Or.inl hcomma.endsSolid)
    have hfirst : StartsSolid ", ".toList :=
      hcomma.startsSolid.append_of_ne_nil (u := [' ']) (by simp)
    rw [renderList]
    refine ⟨?_, ?_⟩
    · exact (hp.toSingleSpaced.append hglue (Or.inr hfirst)).append hspaced (Or.inr hsolid)
    · exact (hp.startsSolid.append hfirst).append hsolid

end

/-- A list is written as its parameters with commas between them. -/
lemma renderList_eq_join (ps : List Parameter) :
    renderList ps = Text.join ", ".toList (ps.map render) := by
  induction ps with
  | nil => rw [renderList, List.map_nil, Text.join]
  | cons p ps ih =>
    cases ps with
    | nil => rw [renderList, List.map_cons, List.map_nil, Text.join]
    | cons q ps =>
      rw [renderList, ih, List.map_cons, List.map_cons]
      rfl

end Parameter

/-! ## Previews -/

namespace Preview

variable {params others : List Parameter} {preview : Preview}

/-- A preview is made if one of the parameters is not a value, and then it is the list. -/
lemma ofParams_eq_ok_iff : ofParams params = .ok preview ↔
    (∃ p ∈ params, p.isNonType = false) ∧ preview = ⟨Parameter.renderList params⟩ := by
  unfold ofParams
  split_ifs with hempty hall
  · simp [List.isEmpty_iff.1 hempty]
  · have hnone : ¬∃ p ∈ params, p.isNonType = false := by
      rintro ⟨p, hp, hfalse⟩
      rw [List.all_eq_true.1 hall p hp] at hfalse
      exact absurd hfalse (by decide)
    simp [hnone]
  · have hsome : ∃ p ∈ params, p.isNonType = false := by
      simpa using hall
    rw [Except.ok.injEq, and_iff_right hsome, eq_comm]

/-- The preview depends on the normal forms alone. -/
lemma ofParams_normalizedList (params : List Parameter) :
    ofParams (Parameter.normalizedList params) = ofParams params := by
  have hempty : (Parameter.normalizedList params).isEmpty = params.isEmpty := by
    cases params <;> rfl
  have hall : (Parameter.normalizedList params).all Parameter.isNonType =
      params.all Parameter.isNonType := by
    induction params with
    | nil => rfl
    | cons p ps ih =>
      rw [Parameter.normalizedList, List.all_cons, List.all_cons, Parameter.isNonType_normalized]
      rw [ih (by cases ps <;> rfl)]
  unfold ofParams
  rw [hempty, hall, Parameter.renderList_normalizedList]

/-- A list has a preview exactly if it has a parameter that carries type information. The preview is
the list of the one-line forms; its blanks are single spaces, so it is one line and its own normal
form. It does not change with texts that have the same normal forms. -/
theorem ofParams_normal_form (params : List Parameter) :
    ((∃ preview, ofParams params = .ok preview) ↔ ∃ p ∈ params, p.isNonType = false) ∧
      (∀ preview, ofParams params = .ok preview →
        preview.paramsText = Text.join ", ".toList (params.map Parameter.render) ∧
        preview.text = "template<".toList ++ preview.paramsText ++ ['>'] ∧
        (∀ c ∈ preview.text, isBlank c = true → c = ' ') ∧ ¬[' ', ' '] <:+: preview.text ∧
        preview.text.lines = [preview.text] ∧ normalize preview.text = preview.text) ∧
      ∀ others, Parameter.normalizedList others = Parameter.normalizedList params →
        ofParams others = ofParams params := by
  refine ⟨?_, ?_, ?_⟩
  · simp only [ofParams_eq_ok_iff, exists_and_left, exists_eq, and_true]
  · intro preview h
    obtain ⟨-, rfl⟩ := ofParams_eq_ok_iff.1 h
    have hnormal : Normal (Preview.text ⟨Parameter.renderList params⟩) :=
      Parameter.normal_enclosed (Parameter.singleSpaced_renderList params).1
    exact ⟨Parameter.renderList_eq_join params, rfl, hnormal.spaces,
      hnormal.toSingleSpaced.not_two_spaces, hnormal.toSingleSpaced.lines_eq, hnormal.normalize_eq⟩
  · intro others h
    rw [← ofParams_normalizedList others, h, ofParams_normalizedList]

/-- Empty values beside each other, and a pack without a name: two lists that differ in their blanks
only have one preview. -/
theorem ofParams_normal_form_blanks :
    let params : List Parameter := [.nonType "\u2003".toList, .template [.nonType "int\t\tN".toList,
      .nonType [], .type ⟨true, " ".toList, []⟩] ⟨false, "\nT ".toList, "a\r\n  b".toList⟩]
    let others : List Parameter := [.nonType [], .template [.nonType " int N".toList,
      .nonType "\t".toList, .type ⟨true, [], " ".toList⟩] ⟨false, "T".toList, "a b".toList⟩]
    ofParams others = ofParams params ∧ ∃ preview, ofParams params = .ok preview ∧
      preview.text = "template<, template<int N, , ..._> T = a b>".toList ∧
      ¬[' ', ' '] <:+: preview.text ∧ normalize preview.text = preview.text := by
  intro params others
  obtain ⟨-, hform, hothers⟩ := ofParams_normal_form params
  have hok : ofParams params = .ok ⟨", template<int N, , ..._> T = a b".toList⟩ := by rfl
  obtain ⟨-, htext, -, hspaces, -, hnormal⟩ := hform _ hok
  exact ⟨hothers others (by rfl), _, hok, htext, hspaces, hnormal⟩

end Preview

end TemplateFolding
