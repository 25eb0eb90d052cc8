import TemplateFolding.Proofs.FoundDeclarations

/-!
# What a search finds and what it passes over

A search reports a declaration exactly as it stands in the text: its bytes and points are those of
the text before it and of the text through its closing `>`, however the search got there. What it
reports is in order and does not overlap.

Conversely a place where a declaration could be read is passed over in two cases only. It lies in
a declaration that is reported, or the keyword there shares its `te` with a keyword in front of it
that starts no declaration: the search goes on behind that one.
-/

namespace TemplateFolding

open Text Point

/-! ## Bytes and cuts -/

namespace Text

/-- Adding up the sizes of characters from a number on. -/
lemma foldl_utf8Size (n : Nat) (t : Text) :
    t.foldl (fun n c => n + c.utf8Size) n = n + t.byteLength := by
  induction t generalizing n with
  | nil => rfl
  | cons c cs ih =>
    show cs.foldl _ (n + c.utf8Size) = n + cs.foldl _ (0 + c.utf8Size)
    rw [ih, ih]
    omega

lemma byteLength_append (t u : Text) : (t ++ u).byteLength = t.byteLength + u.byteLength := by
  show (t ++ u).foldl _ 0 = _
  rw [List.foldl_append, foldl_utf8Size]
  rfl

lemma byteLength_cons (c : Char) (cs : Text) :
    byteLength (c :: cs) = c.utf8Size + cs.byteLength := by
  show cs.foldl _ (0 + c.utf8Size) = _
  rw [foldl_utf8Size, Nat.zero_add]

lemma byteLength_pos {t : Text} (h : t ≠ []) : 0 < t.byteLength := by
  obtain ⟨c, cs, rfl⟩ := List.exists_cons_of_ne_nil h
  have hc := c.utf8Size_pos
  rw [byteLength_cons]
  omega

/-- Of two cuts of one text, the first comes before the second or not. -/
lemma append_eq_append_cases {t u t' u' : Text} (h : t ++ u = t' ++ u') :
    (∃ tail, tail ≠ [] ∧ t' = t ++ tail ∧ u = tail ++ u') ∨
      ∃ more, t = t' ++ more ∧ u' = more ++ u := by
  rcases List.append_eq_append_iff.1 h with ⟨tail, ht, hu⟩ | hmore
  · by_cases htail : tail = []
    · subst htail
      exact Or.inr ⟨[], by simpa using ht.symm, by simpa using hu.symm⟩
    · exact Or.inl ⟨tail, htail, ht, hu⟩
  · exact Or.inr hmore

end Text

/-! ## The keyword -/

namespace Declaration

variable {t : Text} {d : Declaration}

/-- A declaration starts with the keyword. -/
lemma keyword_prefix_of_parse? (h : parse? t = some d) : Parameter.keyword <+: t := by
  obtain ⟨⟨params, rest⟩, hread, -⟩ := Option.map_eq_some_iff.1 h
  obtain ⟨t₁, hword, -⟩ := Option.bind_eq_some_iff.1 hread
  exact ⟨t₁, (expect?_eq_some_iff.1 hword).symm⟩

lemma consumed_pos (h : parse? t = some d) : 0 < d.consumed := by
  apply byteLength_pos
  intro hnil
  have hlast := (parse?_source h).2
  simp [hnil] at hlast

end Declaration

namespace Parameter

/-- The keyword behind `before` is the second of two that share their `te`: another one starts six
bytes earlier. -/
def SharesKeyword (before after : Text) : Prop :=
  ∃ front word, before = front ++ word ∧ word.byteLength = 6 ∧ keyword <+: word ++ after

/-- Text in front does not change that a keyword is shared. -/
lemma SharesKeyword.prepend {before after : Text} (front : Text) (h : SharesKeyword before after) :
    SharesKeyword (front ++ before) after := by
  obtain ⟨front', word, rfl, hsize, hword⟩ := h
  exact ⟨front ++ front', word, (List.append_assoc _ _ _).symm, hsize, hword⟩

/-- The keyword overlaps itself in one way. -/
lemma keyword_drop_prefix : ∀ n < 8, 0 < n → keyword.drop n <+: keyword → n = 6 := by
  decide

lemma byteLength_keyword_take_six : byteLength (keyword.take 6) = 6 := by
  decide

/-- A keyword that starts within another one starts at its sixth byte. -/
lemma byteLength_of_keyword_eq {word tail after : Text} (hsplit : keyword = word ++ tail)
    (hword : word ≠ []) (htail : tail ≠ []) (h : keyword <+: tail ++ after) :
    word.byteLength = 6 := by
  have hlength : word.length + tail.length = 8 := by
    rw [← List.length_append, ← hsplit]
    rfl
  have hpos := List.length_pos_iff.2 hword
  have hpos' := List.length_pos_iff.2 htail
  -- what is left of the first keyword is too short to hold the second, which starts with it
  have hprefix : tail <+: keyword := by
    refine List.prefix_of_prefix_length_le (List.prefix_append tail after) h ?_
    show tail.length ≤ 8
    omega
  have hdrop : keyword.drop word.length = tail := by
    rw [hsplit, List.drop_left]
  have hsix : word.length = 6 := by
    refine keyword_drop_prefix _ (by omega) hpos ?_
    rw [hdrop]
    exact hprefix
  have htake : keyword.take word.length = word := by
    rw [hsplit, List.take_left]
  rw [← htake, hsix]
  exact byteLength_keyword_take_six

end Parameter

/-! ## What is reported -/

namespace Finding

/-- The report of a declaration that stands behind `before`. -/
def behind (before : Text) (d : Declaration) : Finding :=
  ⟨before.byteLength, before.byteLength + d.consumed, d.source,
    ⟨pointAfter .origin before, pointAfter .origin (before ++ d.source)⟩, d.params⟩

/-- The finding reports a declaration of the text, found where a keyword stands. -/
def Reports (f : Finding) (t : Text) : Prop :=
  ∃ before d, t = before ++ (d.source ++ d.rest) ∧ Parameter.keyword <+: d.source ++ d.rest ∧
    Declaration.parse? (d.source ++ d.rest) = some d ∧ f = behind before d

/-- The byte belongs to the declaration. -/
def Covers (f : Finding) (byte : Nat) : Prop :=
  f.startByte ≤ byte ∧ byte < f.stopByte

/-- The search behind `before` reports what stands there, counted from the start of the whole
text. -/
lemma mem_allFrom (before : Text) {t : Text} {f : Finding}
    (h : f ∈ allFrom before.byteLength (pointAfter .origin before) t) :
    ∃ passed d, t = passed ++ (d.source ++ d.rest) ∧
      Declaration.parse? (d.source ++ d.rest) = some d ∧ f = behind (before ++ passed) d := by
  -- the invariant: byte and point are those of the text passed so far
  generalize hbyte : before.byteLength = byte at h
  generalize hpoint : pointAfter .origin before = point at h
  fun_induction allFrom byte point t generalizing before with
  | case1 => simp at h
  | case2 byte point c cs hword ih =>
    obtain ⟨passed, d, hsplit, hread, rfl⟩ := ih (before ++ [c])
      (by rw [byteLength_append, hbyte, byteLength_cons]; rfl)
      (by rw [pointAfter_append, hpoint]) h
    exact ⟨c :: passed, d, by rw [hsplit, List.cons_append], hread, by simp⟩
  | case3 byte point c cs afterWord hword d hfound stopByte stop ih =>
    have hsplit := (Declaration.parse?_source hfound).1
    rcases List.mem_cons.1 h with rfl | h
    · refine ⟨[], d, hsplit, hsplit ▸ hfound, ?_⟩
      rw [List.append_nil, behind, pointAfter_append, hbyte, hpoint]
    · obtain ⟨passed, d', hsplit', hread, rfl⟩ := ih (before ++ d.source)
        (by rw [byteLength_append, hbyte]; rfl)
        (by rw [pointAfter_append, hpoint]) h
      refine ⟨d.source ++ passed, d', ?_, hread, by rw [List.append_assoc]⟩
      rw [hsplit, hsplit', List.append_assoc]
  | case4 byte point c cs afterWord hword hfound ih =>
    obtain ⟨passed, d, hsplit, hread, rfl⟩ := ih (before ++ Parameter.keyword)
      (by rw [byteLength_append, hbyte]) (by rw [pointAfter_append, hpoint]) h
    refine ⟨Parameter.keyword ++ passed, d, ?_, hread, by rw [List.append_assoc]⟩
    rw [expect?_eq_some_iff.1 hword, hsplit, List.append_assoc]

/-- Nothing is found before the place from which the search goes on. -/
lemma le_startByte_of_mem_allFrom (before : Text) {t : Text} {f : Finding}
    (h : f ∈ allFrom before.byteLength (pointAfter .origin before) t) :
    before.byteLength ≤ f.startByte := by
  obtain ⟨passed, d, -, -, rfl⟩ := mem_allFrom before h
  show before.byteLength ≤ (before ++ passed).byteLength
  rw [byteLength_append]
  omega

/-- Each declaration starts behind the ones before it. -/
lemma pairwise_allFrom (before t : Text) :
    (allFrom before.byteLength (pointAfter .origin before) t).Pairwise fun f g =>
      f.startByte < g.startByte ∧ f.stopByte ≤ g.startByte := by
  generalize hbyte : before.byteLength = byte
  generalize hpoint : pointAfter .origin before = point
  fun_induction allFrom byte point t generalizing before with
  | case1 => exact .nil
  | case2 byte point c cs hword ih =>
    apply ih (before ++ [c])
    · rw [byteLength_append, hbyte, byteLength_cons]
      rfl
    · rw [pointAfter_append, hpoint]
  | case3 byte point c cs afterWord hword d hfound stopByte stop ih =>
    have hstopByte : (before ++ d.source).byteLength = stopByte := by
      rw [byteLength_append, hbyte]
      rfl
    have hstop : pointAfter .origin (before ++ d.source) = stop := by
      rw [pointAfter_append, hpoint]
    refine List.pairwise_cons.2 ⟨?_, ih (before ++ d.source) hstopByte hstop⟩
    intro g hg
    rw [← hstopByte, ← hstop] at hg
    have hle : byte + d.consumed ≤ g.startByte := by
      have hle := le_startByte_of_mem_allFrom _ hg
      rwa [hstopByte] at hle
    have hpos := Declaration.consumed_pos hfound
    show byte < g.startByte ∧ byte + d.consumed ≤ g.startByte
    omega
  | case4 byte point c cs afterWord hword hfound ih =>
    apply ih (before ++ Parameter.keyword)
    · rw [byteLength_append, hbyte]
    · rw [pointAfter_append, hpoint]

/-! ## What is passed over -/

/-- A declaration can be read behind `passed` only where one is reported or where the search has
stepped over the first of two keywords. -/
lemma covers_or_sharesKeyword (byte : Nat) (point : Point) (passed : Text) {after : Text}
    {d : Declaration} (h : Declaration.parse? after = some d) :
    (∃ f ∈ allFrom byte point (passed ++ after), f.Covers (byte + passed.byteLength)) ∨
      Parameter.SharesKeyword passed after := by
  have hkeyword := Declaration.keyword_prefix_of_parse? h
  generalize ht : passed ++ after = t
  fun_induction allFrom byte point t generalizing passed with
  | case1 byte point =>
    rw [(List.append_eq_nil_iff.1 ht).2] at hkeyword
    exact absurd hkeyword (by decide)
  | case2 byte point c cs hword ih =>
    cases passed with
    | nil =>
      -- the keyword stands at the front, where none was seen
      obtain ⟨rest, hrest⟩ := hkeyword
      rw [← ht, List.nil_append, ← hrest, expect?_eq_some_iff.2 rfl] at hword
      simp at hword
    | cons c' passed =>
      obtain ⟨rfl, htail⟩ := List.cons.inj ht
      rw [byteLength_cons, ← Nat.add_assoc]
      exact (ih _ htail).imp_right (Parameter.SharesKeyword.prepend [c'])
  | case3 byte point c cs afterWord hword d' hfound stopByte stop ih =>
    have hsplit := ht.trans (Declaration.parse?_source hfound).1
    rcases append_eq_append_cases hsplit with ⟨inner, hinner, hsource, -⟩ | ⟨passed, rfl, hrest⟩
    · -- the place is in the declaration found
      left
      refine ⟨_, List.mem_cons_self, ?_⟩
      have hpos := byteLength_pos hinner
      have hsize := congrArg byteLength hsource
      rw [byteLength_append] at hsize
      show byte ≤ byte + _ ∧ byte + _ < byte + d'.source.byteLength
      omega
    · rw [byteLength_append, ← Nat.add_assoc]
      rcases ih _ hrest.symm with ⟨f, hf, hcovers⟩ | hshares
      · exact Or.inl ⟨f, List.mem_cons_of_mem _ hf, hcovers⟩
      · exact Or.inr (hshares.prepend _)
  | case4 byte point c cs afterWord hword hfound ih =>
    have hsplit := ht.trans (expect?_eq_some_iff.1 hword)
    rcases append_eq_append_cases hsplit with ⟨tail, htail, hsource, hafter⟩ | ⟨passed, rfl, hrest⟩
    · right
      have hpassed : passed ≠ [] := by
        rintro rfl
        rw [← ht, List.nil_append, h] at hfound
        simp at hfound
      rw [hafter] at hkeyword
      refine ⟨[], passed, rfl, ?_, afterWord, hsplit.symm⟩
      exact Parameter.byteLength_of_keyword_eq hsource hpassed htail hkeyword
    · rw [byteLength_append, ← Nat.add_assoc]
      exact (ih _ hrest.symm).imp_right (Parameter.SharesKeyword.prepend _)

/-- The findings of a text are its declarations in order, one behind the other, and each is
reported as it stands. A place where another declaration could be read lies in one of them, or its
keyword shares its `te` with the keyword before it. -/
theorem all_exact (t : Text) :
    ((all t).Pairwise fun f g => f.startByte < g.startByte ∧ f.stopByte ≤ g.startByte) ∧
      (∀ f ∈ all t, f.Reports t) ∧
      ∀ before after, t = before ++ after → Parameter.keyword <+: after →
        (Declaration.parse? after).isSome →
          (∃ f ∈ all t, f.Covers before.byteLength) ∨ Parameter.SharesKeyword before after := by
  refine ⟨pairwise_allFrom [] t, ?_, ?_⟩
  · intro f hf
    obtain ⟨before, d, hsplit, hread, rfl⟩ := mem_allFrom [] hf
    exact ⟨before, d, hsplit, Declaration.keyword_prefix_of_parse? hread, hread, rfl⟩
  · intro before after hsplit _ hread
    obtain ⟨d, hd⟩ := Option.isSome_iff_exists.1 hread
    have hplace := covers_or_sharesKeyword 0 .origin before hd
    rwa [Nat.zero_add, ← hsplit] at hplace

/-- Behind a keyword that starts nothing, the one that shares its `te` is passed over. -/
theorem all_exact_shared :
    all "templatemplate<>".toList = [] ∧
      Parameter.keyword <+: "template<>".toList ∧
      (Declaration.parse? "template<>".toList).isSome ∧
      ((∃ f ∈ all "templatemplate<>".toList, f.Covers (byteLength "templa".toList)) ∨
        Parameter.SharesKeyword "templa".toList "template<>".toList) := by
  have hkeyword : Parameter.keyword <+: "template<>".toList := by decide
  have hread : (Declaration.parse? "template<>".toList).isSome := by decide +kernel
  exact ⟨by decide +kernel, hkeyword, hread,
    (all_exact "templatemplate<>".toList).2.2 "templa".toList _ rfl hkeyword hread⟩

end Finding

end TemplateFolding
