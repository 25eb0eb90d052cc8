import TemplateFolding.Folding.AutoFolder
import TemplateFolding.Proofs.ScreenText

/-!
# Where declarations are found

A reader leaves a suffix of what it is given, and a declaration ends with its closing `>`. So the
declarations that a search finds stand at positions of the text, one after the other, and the
requests to fold them are in the same order.

A preview is drawn on one line: what it is made of has its blanks replaced by spaces.
-/

namespace TemplateFolding

open Text Point Range

/-! ## Readers leave suffixes -/

/-- What the reader leaves is the end of what it was given. -/
def Reader.LeavesSuffix {α : Type} (r : Reader α) : Prop :=
  ∀ {t a rest}, r.read t = some (a, rest) → rest <:+ t

lemma skipLayout_suffix (t : Text) : skipLayout t <:+ t :=
  List.dropWhile_suffix _

lemma expect?_suffix {word t rest : Text} (h : expect? word t = some rest) : rest <:+ t := by
  rw [expect?_eq_some_iff.1 h]
  exact List.suffix_append _ _

namespace Parameter

variable {standalone grouped : Bool} {nested : Reader (List Parameter)} {t rest run : Text}
  {spec : TypeSpec} {p : Parameter}

lemma typeKeyword?_suffix (h : typeKeyword? t = some rest) : rest <:+ t := by
  have hword : ∀ {r}, (expect? "typename".toList t <|> expect? "class".toList t) = some r →
      r <:+ t := by
    intro r hr
    simp only [Option.orElse_eq_orElse, Option.orElse_eq_or, Option.or_eq_some_iff] at hr
    rcases hr with hr | ⟨-, hr⟩
    · exact expect?_suffix hr
    · exact expect?_suffix hr
  rw [typeKeyword?] at h
  split at h
  · simp at h
  · rename_i hr
    rw [← Option.some.inj h]
    exact hword hr
  · rename_i hr
    split at h
    · simp at h
    · rw [← Option.some.inj h]
      exact hword hr

lemma filledRun?_suffix (h : filledRun? grouped t = some (run, rest)) : rest <:+ t := by
  rw [filledRun?] at h
  split at h
  · rename_i run' rest' hrun
    split at h
    · simp at h
    · simp only [Option.some.injEq, Prod.mk.injEq] at h
      rw [← h.2, closedRun_append hrun]
      exact List.suffix_append _ _
  · simp at h

lemma typeWithDefault?_suffix (h : typeWithDefault? t = some (spec, rest)) : rest <:+ t := by
  simp only [typeWithDefault?, Option.bind_eq_bind, Option.bind_eq_some_iff] at h
  obtain ⟨t₁, hword, h⟩ := h
  split at h
  · rename_i t₂ hname
    obtain ⟨⟨run, rest'⟩, hrun, h⟩ := Option.bind_eq_some_iff.1 h
    simp only [Option.some.injEq, Prod.mk.injEq] at h
    rw [← h.2]
    have hrest : t₂ <:+ t₁.dropWhile isNameChar := by
      rw [hname]
      exact List.suffix_cons _ _
    exact (filledRun?_suffix hrun).trans ((skipLayout_suffix t₂).trans
      (hrest.trans ((List.dropWhile_suffix _).trans (typeKeyword?_suffix hword))))
  · simp at h

lemma typeWithoutDefault?_suffix (h : typeWithoutDefault? t = some (spec, rest)) : rest <:+ t := by
  simp only [typeWithoutDefault?, Option.bind_eq_bind, Option.bind_eq_some_iff] at h
  obtain ⟨t₁, hword, h⟩ := h
  simp only [Option.some.injEq, Prod.mk.injEq] at h
  rw [← h.2]
  have hpack : (expect? "...".toList (skipLayout t₁)).getD (skipLayout t₁) <:+ skipLayout t₁ := by
    cases hdots : expect? "...".toList (skipLayout t₁) with
    | none => exact List.suffix_refl _
    | some r => exact expect?_suffix hdots
  exact (List.dropWhile_suffix _).trans ((skipLayout_suffix _).trans
    (hpack.trans ((skipLayout_suffix t₁).trans (typeKeyword?_suffix hword))))

lemma typeParameter?_suffix (h : typeParameter? standalone t = some (spec, rest)) : rest <:+ t := by
  simp only [typeParameter?, Option.orElse_eq_orElse, Option.orElse_eq_or, Option.or_eq_some_iff,
    Option.filter_eq_some_iff] at h
  rcases h with ⟨h, -⟩ | ⟨-, h, -⟩
  · exact typeWithDefault?_suffix h
  · exact typeWithoutDefault?_suffix h

/-- Reading a template parameter leaves the end of the text, if reading its own list does. -/
lemma templateParameter?_suffix (hn : nested.LeavesSuffix)
    (h : templateParameter? standalone nested t = some (p, rest)) : rest <:+ t := by
  simp only [templateParameter?, Option.bind_eq_bind, Option.bind_eq_some_iff] at h
  obtain ⟨⟨params, t₁⟩, hlist, ⟨spec, t₂⟩, htype, h⟩ := h
  simp only [Option.some.injEq, Prod.mk.injEq] at h
  rw [← h.2]
  exact (typeParameter?_suffix htype).trans ((skipLayout_suffix t₁).trans (hn hlist))

lemma nonTypeParameter?_suffix (h : nonTypeParameter? standalone t = some (p, rest)) :
    rest <:+ t := by
  simp only [nonTypeParameter?, Option.map_eq_some_iff, Option.orElse_eq_orElse,
    Option.orElse_eq_or, Option.or_eq_some_iff, Option.filter_eq_some_iff] at h
  obtain ⟨⟨run, rest'⟩, h, heq⟩ := h
  rw [← (Prod.mk.inj heq).2]
  rcases h with ⟨h, -⟩ | ⟨-, h, -⟩
  · exact filledRun?_suffix h
  · rw [looseRun?] at h
    split at h
    · simp at h
    · rw [← (Prod.mk.inj (Option.some.inj h)).2]
      exact List.dropWhile_suffix _

/-- Reading a parameter leaves the end of the text, if reading the lists in it does. -/
lemma parameter_leavesSuffix (hn : nested.LeavesSuffix) :
    (parameter standalone nested).LeavesSuffix := by
  intro t p rest h
  change parameter? standalone nested t = some (p, rest) at h
  simp only [parameter?, Option.orElse_eq_orElse, Option.orElse_eq_or, Option.or_eq_some_iff] at h
  rcases h with h | ⟨-, h | ⟨-, h⟩⟩
  · obtain ⟨⟨spec, rest'⟩, htype, heq⟩ := Option.map_eq_some_iff.1 h
    rw [← (Prod.mk.inj heq).2]
    exact typeParameter?_suffix htype
  · exact templateParameter?_suffix hn h
  · exact nonTypeParameter?_suffix h

/-! ## A list ends with its closing bracket -/

/-- Behind the layout stands the end of the text. -/
lemma closing_suffix_of_skipLayout {t' : Text} {c : Char} (h : skipLayout t = c :: t') :
    c :: t' <:+ t := by
  rw [← h]
  exact skipLayout_suffix t

/-- Behind the parameters of a list stands its closing bracket. -/
lemma commaList_closing {item : Reader Parameter} (hi : item.LeavesSuffix) {ps : List Parameter}
    (h : item.commaList t = some (ps, rest)) : '>' :: rest <:+ t := by
  fun_induction item.commaList t generalizing ps rest with
  | case1 => simp at h
  | case2 t a t₁ hread t₂ hcomma ih =>
    obtain ⟨⟨ps', rest'⟩, hmore, heq⟩ := Option.map_eq_some_iff.1 h
    rw [← (Prod.mk.inj heq).2]
    have htail : t₂ <:+ t₁ :=
      (List.suffix_cons ',' t₂).trans (closing_suffix_of_skipLayout hcomma)
    exact (ih hmore).trans ((skipLayout_suffix t₂).trans (htail.trans (hi hread)))
  | case3 t a t₁ hread t₂ hclose =>
    rw [← (Prod.mk.inj (Option.some.inj h)).2]
    exact (closing_suffix_of_skipLayout hclose).trans (hi hread)
  | case4 => simp at h

/-- Behind a list in angles stands its closing bracket. -/
lemma angleList?_closing {item : Reader Parameter} (hi : item.LeavesSuffix) {ps : List Parameter}
    (h : angleList? item t = some (ps, rest)) : '>' :: rest <:+ t := by
  rw [angleList?] at h
  split at h
  · rename_i t₁ hopen
    have htail : t₁ <:+ t := (List.suffix_cons '<' t₁).trans (closing_suffix_of_skipLayout hopen)
    split at h
    · rename_i t₂ hclose
      rw [← (Prod.mk.inj (Option.some.inj h)).2]
      exact (closing_suffix_of_skipLayout hclose).trans htail
    · exact (commaList_closing hi h).trans ((skipLayout_suffix t₁).trans htail)
  · simp at h

/-- Lists of any depth end with their closing bracket. -/
lemma parameterList_closing (depth : Nat) {t rest : Text} {ps : List Parameter}
    (h : (parameterList standalone depth).read t = some (ps, rest)) : '>' :: rest <:+ t := by
  induction depth generalizing t ps rest with
  | zero => simp [parameterList] at h
  | succ depth ih =>
    obtain ⟨t₁, hword, hlist⟩ := Option.bind_eq_some_iff.1 h
    -- an inner list leaves a proper suffix too, which is what reading parameters needs
    have hnested : (parameterList standalone depth).LeavesSuffix :=
      fun hread => (List.suffix_cons _ _).trans (ih hread)
    exact (angleList?_closing (parameter_leavesSuffix hnested) hlist).trans (expect?_suffix hword)

end Parameter

/-- A declaration that is read is the start of the text, and ends with its closing bracket. -/
lemma Declaration.parse?_source {t : Text} {d : Declaration} (h : parse? t = some d) :
    t = d.source ++ d.rest ∧ d.source.getLast? = some '>' := by
  obtain ⟨⟨params, rest⟩, hread, rfl⟩ := Option.map_eq_some_iff.1 h
  obtain ⟨u, hu⟩ := Parameter.parameterList_closing _ hread
  have hsource : t.take (t.length - rest.length) = u ++ ['>'] := by
    have hsplit : t = (u ++ ['>']) ++ rest := by simp [← hu]
    have hlength : t.length - rest.length = (u ++ ['>']).length := by
      rw [hsplit, List.length_append]
      omega
    rw [hlength, hsplit, List.take_left]
  dsimp only
  rw [hsource]
  constructor
  · simp [← hu]
  · simp

/-! ## Declarations in order -/

/-- The declarations found behind `before` stand one after the other in the whole text. -/
lemma Finding.laid_allFrom (byte : Nat) (before t : Text) :
    Laid (pointAfter .origin before) (pointAfter .origin (before ++ t))
        ((allFrom byte (pointAfter .origin before) t).map (·.occurrence.range)) ∧
      AddressableEnds (before ++ t)
        ((allFrom byte (pointAfter .origin before) t).map (·.occurrence.range)) := by
  generalize hpoint : pointAfter .origin before = point
  fun_induction allFrom byte point t generalizing before with
  | case1 =>
    rw [List.append_nil, hpoint]
    exact ⟨le_refl _, by simp [AddressableEnds]⟩
  | case2 byte point c cs hword ih =>
    have happend : before ++ c :: cs = (before ++ [c]) ++ cs := by simp
    obtain ⟨hlaid, hends⟩ := ih (before ++ [c]) (by rw [pointAfter_append, hpoint])
    rw [happend]
    exact ⟨hlaid.of_le (le_pointAfter _ _), hends⟩
  | case3 byte point c cs afterWord hword d hfound stopByte stop ih =>
    obtain ⟨hsplit, hlast⟩ := Declaration.parse?_source hfound
    have hstop : pointAfter .origin (before ++ d.source) = stop := by
      rw [pointAfter_append, hpoint]
    have happend : before ++ c :: cs = (before ++ d.source) ++ d.rest := by
      rw [hsplit, List.append_assoc]
    have hne : d.source ≠ [] := by
      intro hnil
      simp [hnil] at hlast
    -- no line feed starts a declaration, and no carriage return ends one
    have hstart : CleanSeam before (c :: cs) := by
      intro hbad
      have hhead : Parameter.keyword.head? = some 't' := by decide
      rw [expect?_eq_some_iff.1 hword, List.head?_append, hhead] at hbad
      simp at hbad
    have hclose : CleanSeam (before ++ d.source) d.rest := by
      intro hbad
      rw [List.getLast?_append, hlast] at hbad
      simp at hbad
    obtain ⟨hlaid, hends⟩ := ih (before ++ d.source) hstop
    rw [← happend] at hlaid hends
    refine ⟨⟨le_refl _, lt_pointAfter _ hne, hlaid⟩, ?_⟩
    intro r hr
    rw [List.map_cons, List.mem_cons] at hr
    rcases hr with rfl | hr
    · have hto := hclose.addressable.1
      rw [hstop, ← happend] at hto
      exact ⟨hpoint ▸ hstart.addressable.1, hto⟩
    · exact hends r hr
  | case4 byte point c cs afterWord hword hfound ih =>
    have happend : before ++ c :: cs = (before ++ Parameter.keyword) ++ afterWord := by
      rw [expect?_eq_some_iff.1 hword, List.append_assoc]
    obtain ⟨hlaid, hends⟩ := ih (before ++ Parameter.keyword) (by rw [pointAfter_append, hpoint])
    rw [happend]
    exact ⟨hlaid.of_le (le_pointAfter _ _), hends⟩

/-- The declarations of a text stand one after the other at positions of it. -/
theorem Occurrence.laid_all (t : Text) :
    Laid .origin (pointAfter .origin t) ((all t).map (·.range)) ∧
      AddressableEnds t ((all t).map (·.range)) := by
  rw [all, List.map_map]
  exact Finding.laid_allFrom 0 [] t

/-! ## Previews are drawn on one line -/

/-- A text without line feeds and carriage returns. -/
def Text.OneLine (t : Text) : Prop :=
  ∀ c ∈ t, c ≠ '\n' ∧ c ≠ '\r'

instance (t : Text) : Decidable t.OneLine :=
  List.decidableBAll _ t

namespace Text

variable {t u : Text}

lemma OneLine.append (ht : t.OneLine) (hu : u.OneLine) : (t ++ u).OneLine := by
  intro c hc
  rcases List.mem_append.1 hc with hc | hc
  · exact ht c hc
  · exact hu c hc

/-- Collapsing leaves no blank but spaces. -/
lemma mem_collapseFrom {inRun : Bool} {c : Char} (h : c ∈ collapseFrom inRun t) :
    c = ' ' ∨ isBlank c = false := by
  fun_induction collapseFrom inRun t with
  | case1 => simp at h
  | case2 c cs hblank ih => exact ih h
  | case3 inRun c cs hblank hrun ih =>
    rcases List.mem_cons.1 h with rfl | h
    · exact Or.inl rfl
    · exact ih h
  | case4 inRun c cs hblank ih =>
    rcases List.mem_cons.1 h with rfl | h
    · exact Or.inr (by simpa using hblank)
    · exact ih h

/-- Text with its layout normalized is on one line. -/
lemma oneLine_normalize (t : Text) : (normalize t).OneLine := by
  intro c hc
  have hmem : c ∈ collapseFrom false t := by
    rw [normalize, trim, trimEnd, List.mem_reverse] at hc
    have hc := (List.dropWhile_suffix _).subset hc
    rw [List.mem_reverse] at hc
    exact (List.dropWhile_suffix _).subset hc
  rcases mem_collapseFrom hmem with rfl | hblank
  · decide
  · constructor
    all_goals
      rintro rfl
      exact absurd hblank (by decide)

end Text

lemma TypeSpec.oneLine_render (s : TypeSpec) : s.render.OneLine := by
  unfold render
  refine OneLine.append (OneLine.append ?_ ?_) ?_
  · split_ifs
    · decide
    · simp [OneLine]
  · split_ifs
    · decide
    · exact oneLine_normalize _
  · split_ifs
    · simp [OneLine]
    · exact OneLine.append (by decide) (oneLine_normalize _)

namespace Parameter

mutual

/-- A parameter is written on one line. -/
theorem oneLine_render : (p : Parameter) → p.render.OneLine
  | .type spec => by
    unfold render
    exact spec.oneLine_render
  | .nonType value => by
    unfold render
    exact oneLine_normalize value
  | .template params spec => by
    unfold render
    exact OneLine.append (OneLine.append (OneLine.append (by decide) (oneLine_renderList params))
      (by decide)) spec.oneLine_render

theorem oneLine_renderList : (ps : List Parameter) → (renderList ps).OneLine
  | [] => by simp [renderList, OneLine]
  | [p] => by
    unfold renderList
    exact oneLine_render p
  | p :: q :: ps => by
    unfold renderList
    exact OneLine.append (OneLine.append (oneLine_render p) (by decide))
      (oneLine_renderList (q :: ps))

end

end Parameter

/-- A preview is on one line, and it is not empty. -/
lemma Preview.oneLine_text {params : List Parameter} {preview : Preview}
    (h : ofParams params = .ok preview) : preview.text.OneLine ∧ 0 < preview.text.length := by
  have hparams : preview.paramsText = Parameter.renderList params := by
    rw [ofParams] at h
    split_ifs at h
    exact (congrArg paramsText (Except.ok.inj h)).symm
  unfold text
  rw [hparams]
  refine ⟨OneLine.append (OneLine.append ?_ (Parameter.oneLine_renderList params)) ?_, by simp⟩
  · decide
  · decide

/-! ## Requests in order -/

/-- A request to fold part of a text behind a preview that is drawn on one line. -/
structure FoldRequest.Ready (t : Text) (q : FoldRequest) : Prop where
  start : t.Addressable q.range.start
  stop : t.Addressable q.range.stop
  lt : q.range.start < q.range.stop
  oneLine : q.preview.OneLine
  pos : 0 < q.preview.length

/-- Requests with ascending numbers for ranges one after the other. -/
def FoldRequest.Ascending (requests : List FoldRequest) : Prop :=
  requests.Pairwise fun q q' => q.id < q'.id ∧ q.range.stop ≤ q'.range.start

namespace AutoFolder

/-- What is asked for at a declaration: numbers go up from the first, and the preview is on one
line. -/
lemma mem_requestsFor {id : FoldingId} {os : List Occurrence} {q : FoldRequest}
    (h : q ∈ requestsFor id os) :
    id ≤ q.id ∧ q.range ∈ os.map (·.range) ∧ q.preview.OneLine ∧ 0 < q.preview.length := by
  fun_induction requestsFor id os with
  | case1 => simp at h
  | case2 id o os preview hpreview ih =>
    rcases List.mem_cons.1 h with rfl | h
    · exact ⟨Nat.le_refl _, by simp, Preview.oneLine_text hpreview⟩
    · obtain ⟨hid, hrange, hline⟩ := ih h
      exact ⟨Nat.le_of_succ_le hid, List.mem_cons_of_mem _ hrange, hline⟩
  | case3 id o os refusal hpreview ih =>
    obtain ⟨hid, hrange, hline⟩ := ih h
    exact ⟨hid, List.mem_cons_of_mem _ hrange, hline⟩

/-- The requests for declarations one after the other are ascending. -/
lemma ascending_requestsFor {id : FoldingId} {os : List Occurrence}
    (h : (os.map (·.range)).Pairwise fun r r' => r.stop ≤ r'.start) :
    FoldRequest.Ascending (requestsFor id os) := by
  fun_induction requestsFor id os with
  | case1 => exact .nil
  | case2 id o os preview hpreview ih =>
    rw [List.map_cons, List.pairwise_cons] at h
    refine List.pairwise_cons.2 ⟨?_, ih h.2⟩
    intro q hq
    obtain ⟨hid, hrange, -⟩ := mem_requestsFor hq
    exact ⟨hid, h.1 _ hrange⟩
  | case3 id o os refusal hpreview ih =>
    rw [List.map_cons, List.pairwise_cons] at h
    exact ih h.2

/-- The requests for the declarations of a text can be served one after the other. -/
theorem requestsFor_all (id : FoldingId) (t : Text) :
    (∀ q ∈ requestsFor id (Occurrence.all t), q.Ready t) ∧
      FoldRequest.Ascending (requestsFor id (Occurrence.all t)) := by
  obtain ⟨hlaid, hends⟩ := Occurrence.laid_all t
  refine ⟨?_, ascending_requestsFor hlaid.pairwise⟩
  intro q hq
  obtain ⟨-, hrange, hline, hpos⟩ := mem_requestsFor hq
  obtain ⟨hstart, hstop⟩ := hends _ hrange
  exact ⟨hstart, hstop, (hlaid.mem hrange).2.1, hline, hpos⟩

end AutoFolder

end TemplateFolding
