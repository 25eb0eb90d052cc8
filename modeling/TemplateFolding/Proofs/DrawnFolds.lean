import TemplateFolding.Editor.Screen
import TemplateFolding.Proofs.Positions

/-!
# The folds as they are drawn

`effectiveFolds` sorts the folds, drops the empty ones and merges those that overlap. The laws here
say what a proof needs of the result: it does not depend on the order in which the folds are listed,
it falls apart at every position that no fold covers, and its ranges stand one after the other.
-/

namespace TemplateFolding

open Point

namespace Range

variable {r s f : Range} {l l' : List Range}

/-! ## Sorting -/

/-- Ranges are ordered by where they start, and then by where they stop. -/
lemma precedes_iff : r.precedes s = true ↔ r.start < s.start ∨ r.start = s.start ∧ r.stop ≤ s.stop := by
  rw [precedes, decide_eq_true_eq]

lemma precedes_of_not (h : ¬r.precedes s = true) : s.precedes r = true := by
  rw [precedes_iff] at *
  rcases r with ⟨⟨a, b⟩, ⟨c, d⟩⟩
  rcases s with ⟨⟨a', b'⟩, ⟨c', d'⟩⟩
  simp only [lt_iff, le_iff, Point.mk.injEq] at *
  omega

lemma precedes_trans (h₁ : r.precedes s = true) (h₂ : s.precedes f = true) :
    r.precedes f = true := by
  rw [precedes_iff] at *
  rcases h₁ with h₁ | ⟨e₁, h₁⟩ <;> rcases h₂ with h₂ | ⟨e₂, h₂⟩
  · exact Or.inl (lt_of_lt_of_le h₁ (le_of_lt h₂))
  · exact Or.inl (e₂ ▸ h₁)
  · exact Or.inl (e₁ ▸ h₂)
  · exact Or.inr ⟨e₁.trans e₂, le_trans h₁ h₂⟩

lemma precedes_antisymm (h₁ : r.precedes s = true) (h₂ : s.precedes r = true) : r = s := by
  rw [precedes_iff] at *
  rcases r with ⟨⟨a, b⟩, ⟨c, d⟩⟩
  rcases s with ⟨⟨a', b'⟩, ⟨c', d'⟩⟩
  simp only [lt_iff, le_iff, Point.mk.injEq, Range.mk.injEq] at *
  omega

lemma start_le_of_precedes (h : r.precedes s = true) : r.start ≤ s.start := by
  rcases precedes_iff.1 h with h | ⟨h, _⟩
  · exact le_of_lt h
  · exact h ▸ le_refl _

lemma place_perm (r : Range) (l : List Range) : (place r l).Perm (r :: l) := by
  induction l with
  | nil => exact .refl _
  | cons s l ih =>
    rw [place]
    split
    · exact .refl _
    · exact (ih.cons s).trans (.swap r s l)

lemma sort_perm (l : List Range) : (sort l).Perm l := by
  induction l with
  | nil => exact .refl _
  | cons r l ih => exact (place_perm r (sort l)).trans (ih.cons r)

lemma pairwise_place (h : l.Pairwise (precedes · · = true)) :
    (place r l).Pairwise (precedes · · = true) := by
  induction l with
  | nil => simp [place]
  | cons s l ih =>
    obtain ⟨hs, hl⟩ := List.pairwise_cons.1 h
    rw [place]
    split
    · rename_i hrs
      refine List.pairwise_cons.2 ⟨fun f hf => ?_, h⟩
      rcases List.mem_cons.1 hf with rfl | hf
      · exact hrs
      · exact precedes_trans hrs (hs f hf)
    · rename_i hrs
      refine List.pairwise_cons.2 ⟨fun f hf => ?_, ih hl⟩
      rcases List.mem_cons.1 ((place_perm r l).mem_iff.1 hf) with rfl | hf
      · exact precedes_of_not hrs
      · exact hs f hf

lemma pairwise_sort (l : List Range) : (sort l).Pairwise (precedes · · = true) := by
  induction l with
  | nil => exact .nil
  | cons r l ih => exact pairwise_place ih

/-- An ordered list is determined by its members. -/
lemma eq_sort (hp : l.Perm l') (h : l.Pairwise (precedes · · = true)) : l = sort l' :=
  (hp.trans (sort_perm l').symm).eq_of_pairwise (fun _ _ _ _ h₁ h₂ => precedes_antisymm h₁ h₂) h
    (pairwise_sort l')

/-- The sorted list does not depend on the order of the original. -/
lemma sort_congr (h : l.Perm l') : sort l = sort l' :=
  eq_sort ((sort_perm l).trans h) (pairwise_sort l)

/-- It does not matter whether ranges are sorted or dropped first. -/
lemma filter_sort (keep : Range → Bool) (l : List Range) :
    (sort l).filter keep = sort (l.filter keep) :=
  eq_sort ((sort_perm l).filter keep) ((pairwise_sort l).filter keep)

/-- Lists of which one precedes the other are sorted one by one. -/
lemma sort_append (h : ∀ r ∈ l, ∀ s ∈ l', r.precedes s = true) :
    sort (l ++ l') = sort l ++ sort l' := by
  refine (eq_sort ((sort_perm l).append (sort_perm l')) ?_).symm
  refine List.pairwise_append.2 ⟨pairwise_sort l, pairwise_sort l', fun r hr s hs => ?_⟩
  exact h r ((sort_perm l).mem_iff.1 hr) s ((sort_perm l').mem_iff.1 hs)

/-! ## Ranges one after the other -/

/-- Ranges that are not empty and stand one after the other between two positions. -/
def Laid (a b : Point) : List Range → Prop
  | [] => a ≤ b
  | r :: rest => a ≤ r.start ∧ r.start < r.stop ∧ Laid r.stop b rest

variable {a b c : Point}

lemma Laid.le (h : Laid a b l) : a ≤ b := by
  induction l generalizing a with
  | nil => exact h
  | cons r l ih => exact le_trans h.1 (le_trans (le_of_lt h.2.1) (ih h.2.2))

/-- Room in front of ranges that are laid out does no harm. -/
lemma Laid.of_le (h : Laid b c l) (hab : a ≤ b) : Laid a c l := by
  cases l with
  | nil => exact le_trans hab h
  | cons r l => exact ⟨le_trans hab h.1, h.2⟩

/-- Ranges laid out up to a point, and then from it on, are laid out altogether. -/
lemma Laid.append (h : Laid a b l) (h' : Laid b c l') : Laid a c (l ++ l') := by
  induction l generalizing a with
  | nil => exact h'.of_le h
  | cons r l ih => exact ⟨h.1, h.2.1, ih h.2.2⟩

/-- A range among those laid out is not empty, and lies between the two points. -/
lemma Laid.mem (h : Laid a b l) (hr : r ∈ l) : a ≤ r.start ∧ r.start < r.stop ∧ r.stop ≤ b := by
  induction l generalizing a with
  | nil => simp at hr
  | cons s l ih =>
    rcases List.mem_cons.1 hr with rfl | hr
    · exact ⟨h.1, h.2.1, h.2.2.le⟩
    · obtain ⟨h₁, h₂, h₃⟩ := ih h.2.2 hr
      exact ⟨le_trans (le_trans h.1 (le_of_lt h.2.1)) h₁, h₂, h₃⟩

/-- Of ranges that are laid out each stops before the next one starts. -/
lemma Laid.pairwise (h : Laid a b l) : l.Pairwise fun r s => r.stop ≤ s.start := by
  induction l generalizing a with
  | nil => exact .nil
  | cons r l ih => exact List.pairwise_cons.2 ⟨fun s hs => (h.2.2.mem hs).1, ih h.2.2⟩

/-- Ranges that are not empty, each behind the one before, are laid out. -/
lemma laid_of_pairwise (hab : a ≤ b)
    (h : ∀ r ∈ l, a ≤ r.start ∧ r.start < r.stop ∧ r.stop ≤ b)
    (hp : l.Pairwise fun r s => r.stop ≤ s.start) : Laid a b l := by
  induction l generalizing a with
  | nil => exact hab
  | cons r l ih =>
    obtain ⟨hlater, hp⟩ := List.pairwise_cons.1 hp
    obtain ⟨hstart, hlt, hstop⟩ := h r (by simp)
    refine ⟨hstart, hlt, ih hstop ?_ hp⟩
    intro s hs
    exact ⟨hlater s hs, (h s (List.mem_cons_of_mem _ hs)).2⟩

/-! ## Merging -/

/-- Merging cuts the list where it finds a gap. -/
lemma mergeFrom_append (hl : ∀ r ∈ f :: l, r.stop ≤ a) (hl' : ∀ s ∈ l', a ≤ s.start) :
    mergeFrom f (l ++ l') = mergeFrom f l ++ merge l' := by
  induction l generalizing f with
  | nil =>
    cases l' with
    | nil => rfl
    | cons s l' =>
      have hfs : ¬s.start < f.stop :=
        Point.not_lt.2 (le_trans (hl f (by simp)) (hl' s (by simp)))
      simp only [List.nil_append, mergeFrom, if_neg hfs, merge, List.cons_append]
  | cons r l ih =>
    have hf := hl f (by simp)
    have hr := hl r (by simp)
    rw [List.cons_append, mergeFrom, mergeFrom]
    split
    · apply ih
      intro s hs
      rcases List.mem_cons.1 hs with rfl | hs
      · simp only
        split <;> assumption
      · exact hl s (by simp [hs])
    · rw [ih fun s hs => hl s (List.mem_cons_of_mem _ hs), List.cons_append]

/-- Where no range reaches across a point, those before it and those behind it are merged apart. -/
lemma merge_append (hl : ∀ r ∈ l, r.stop ≤ a) (hl' : ∀ s ∈ l', a ≤ s.start) :
    merge (l ++ l') = merge l ++ merge l' := by
  cases l with
  | nil => rfl
  | cons r l => exact mergeFrom_append hl hl'

/-- The merged ranges stand one after the other. -/
lemma laid_mergeFrom (hf : f.start < f.stop) (hfb : f.stop ≤ b)
    (hl : ∀ r ∈ l, f.start ≤ r.start ∧ r.start < r.stop ∧ r.stop ≤ b)
    (hs : l.Pairwise (precedes · · = true)) : Laid f.start b (mergeFrom f l) := by
  induction l generalizing f with
  | nil => exact ⟨le_refl _, hf, hfb⟩
  | cons r l ih =>
    obtain ⟨hr, hs⟩ := List.pairwise_cons.1 hs
    obtain ⟨hfr, hrr, hrb⟩ := hl r (by simp)
    rw [mergeFrom]
    split
    · refine ih (f := ⟨f.start, if f.stop < r.stop then r.stop else f.stop⟩) ?_ ?_
        (fun s hm => hl s (by simp [hm])) hs
      · simp only
        split
        · exact lt_of_lt_of_le hf (le_of_lt ‹_›)
        · exact hf
      · simp only
        split <;> assumption
    · rename_i hge
      -- the list is sorted, so what is merged from `r` starts no earlier than `r`
      have hlaid : Laid r.start b (mergeFrom r l) := by
        apply ih hrr hrb _ hs
        intro s hm
        exact ⟨start_le_of_precedes (hr s hm), (hl s (by simp [hm])).2⟩
      exact ⟨le_refl _, hf, hlaid.of_le (Point.not_lt.1 hge)⟩

/-- The ends of a merged range are ends of ranges it was merged from. -/
lemma mem_mergeFrom (h : r ∈ mergeFrom f l) :
    (∃ s ∈ f :: l, s.start = r.start) ∧ ∃ s ∈ f :: l, s.stop = r.stop := by
  induction l generalizing f with
  | nil =>
    have hr : r = f := by simpa [mergeFrom] using h
    subst hr
    exact ⟨⟨r, by simp⟩, ⟨r, by simp⟩⟩
  | cons s l ih =>
    rw [mergeFrom] at h
    split at h
    · obtain ⟨⟨s₁, hs₁, he₁⟩, ⟨s₂, hs₂, he₂⟩⟩ := ih h
      constructor
      · rcases List.mem_cons.1 hs₁ with rfl | hs₁
        · exact ⟨f, by simp, he₁⟩
        · exact ⟨s₁, by simp [hs₁], he₁⟩
      · rcases List.mem_cons.1 hs₂ with rfl | hs₂
        · simp only at he₂
          split at he₂
          · exact ⟨s, by simp, he₂⟩
          · exact ⟨f, by simp, he₂⟩
        · exact ⟨s₂, by simp [hs₂], he₂⟩
    · rcases List.mem_cons.1 h with rfl | h
      · exact ⟨⟨r, by simp⟩, ⟨r, by simp⟩⟩
      · obtain ⟨⟨s₁, hs₁, he₁⟩, ⟨s₂, hs₂, he₂⟩⟩ := ih h
        exact ⟨⟨s₁, List.mem_cons_of_mem _ hs₁, he₁⟩, ⟨s₂, List.mem_cons_of_mem _ hs₂, he₂⟩⟩

/-- A range that covers all others takes them up. -/
lemma mergeFrom_cover (hf : f.start = a) (hfs : a < f.stop) (hfb : f.stop ≤ b)
    (hl : ∀ r ∈ l, r.start < r.stop ∧ r.stop ≤ b) (hs : l.Pairwise (precedes · · = true))
    (hc : f.stop = b ∨ (⟨a, b⟩ : Range) ∈ l) : mergeFrom f l = [⟨a, b⟩] := by
  induction l generalizing f with
  | nil =>
    have hb : f.stop = b := by simpa using hc
    rw [mergeFrom, ← hf, ← hb]
  | cons r l ih =>
    obtain ⟨hr, hs⟩ := List.pairwise_cons.1 hs
    obtain ⟨hrr, hrb⟩ := hl r (by simp)
    -- the covering range is not behind `r` in the list, so `r` starts where it starts
    have hlt : r.start < f.stop := by
      rcases hc with hc | hc
      · exact lt_of_lt_of_le hrr (hc ▸ hrb)
      · rcases List.mem_cons.1 hc with hc | hc
        · exact hc ▸ hfs
        · exact lt_of_le_of_lt (start_le_of_precedes (hr _ hc)) hfs
    rw [mergeFrom, if_pos hlt]
    refine ih hf ?_ ?_ (fun s hm => hl s (by simp [hm])) hs ?_
    · simp only
      split
      · exact lt_of_lt_of_le hfs (le_of_lt ‹_›)
      · exact hfs
    · simp only
      split <;> assumption
    · simp only
      rcases hc with hc | hc
      · left
        rw [if_neg (Point.not_lt.2 (hc ▸ hrb)), hc]
      · rcases List.mem_cons.1 hc with hc | hc
        · left
          rw [← hc] at hrb ⊢
          simp only
          split
          · rfl
          · exact le_antisymm hfb (Point.not_lt.1 ‹_›)
        · exact Or.inr hc

/-- Ranges that are laid out have nothing to merge. -/
lemma merge_of_laid (h : Laid a b l) : merge l = l := by
  induction l generalizing a with
  | nil => rfl
  | cons r l ih =>
    have hl := ih h.2.2
    cases l with
    | nil => rfl
    | cons s l =>
      have hge : ¬s.start < r.stop := Point.not_lt.2 h.2.2.1
      rw [merge] at hl ⊢
      rw [mergeFrom, if_neg hge, hl]

end Range

/-! ## The effective folds -/

open Range

variable {l l' : List Range} {a b : Point}

/-- A range whose ends are in order is a point unless it starts before it stops. -/
lemma isPoint_eq_false {r : Range} (h : r.start ≤ r.stop) :
    r.isPoint = false ↔ r.start < r.stop := by
  rw [isPoint, beq_eq_false_iff_ne, ne_eq]
  constructor
  · intro hne
    by_contra hge
    exact hne (le_antisymm h (Point.not_lt.1 hge))
  · intro hlt heq
    rw [heq] at hlt
    exact Point.not_lt.2 (le_refl _) hlt

/-- The effective folds: points are dropped, the others sorted and merged. -/
lemma effectiveFolds_eq (l : List Range) :
    effectiveFolds l = merge (sort (l.filter (!·.isPoint))) := by
  rw [effectiveFolds, filter_sort]

/-- The order in which the folds are listed does not matter. -/
lemma effectiveFolds_congr (h : l.Perm l') : effectiveFolds l = effectiveFolds l' := by
  rw [effectiveFolds, effectiveFolds, sort_congr h]

/-- Folds before a position and folds after it are drawn apart. -/
lemma effectiveFolds_append (hl : ∀ r ∈ l, r.start < r.stop → r.stop ≤ a)
    (hl' : ∀ s ∈ l', s.start < s.stop → a ≤ s.start) (ho : ∀ r ∈ l ++ l', r.start ≤ r.stop) :
    effectiveFolds (l ++ l') = effectiveFolds l ++ effectiveFolds l' := by
  have hmem : ∀ {k : List Range} {r}, (∀ r ∈ k, r.start ≤ r.stop) → r ∈ k.filter (!·.isPoint) →
      r ∈ k ∧ r.start < r.stop := by
    intro k r hk hr
    obtain ⟨hr, hp⟩ := List.mem_filter.1 hr
    exact ⟨hr, (isPoint_eq_false (hk r hr)).1 (by simpa using hp)⟩
  have h₁ : ∀ r ∈ l.filter (!·.isPoint), r.start < r.stop ∧ r.stop ≤ a := fun r hr =>
    have hr := hmem (fun r hr => ho r (by simp [hr])) hr
    ⟨hr.2, hl r hr.1 hr.2⟩
  have h₂ : ∀ r ∈ l'.filter (!·.isPoint), a ≤ r.start := fun r hr =>
    have hr := hmem (fun r hr => ho r (by simp [hr])) hr
    hl' r hr.1 hr.2
  rw [effectiveFolds_eq, effectiveFolds_eq, effectiveFolds_eq, List.filter_append, sort_append,
    merge_append (a := a)]
  · intro r hr
    exact (h₁ r ((sort_perm _).mem_iff.1 hr)).2
  · intro s hs
    exact h₂ s ((sort_perm _).mem_iff.1 hs)
  · intro r hr s hs
    exact precedes_iff.2 (Or.inl (lt_of_lt_of_le (h₁ r hr).1 (le_trans (h₁ r hr).2 (h₂ s hs))))

/-- The effective folds stand one after the other. -/
lemma laid_effectiveFolds (hab : a ≤ b)
    (h : ∀ r ∈ l, r.start ≤ r.stop ∧ (r.start < r.stop → a ≤ r.start ∧ r.stop ≤ b)) :
    Laid a b (effectiveFolds l) := by
  rw [effectiveFolds_eq]
  have hmem : ∀ r ∈ sort (l.filter (!·.isPoint)), a ≤ r.start ∧ r.start < r.stop ∧ r.stop ≤ b := by
    intro r hr
    obtain ⟨hr, hp⟩ := List.mem_filter.1 ((sort_perm _).mem_iff.1 hr)
    have hlt := (isPoint_eq_false (h r hr).1).1 (by simpa using hp)
    exact ⟨((h r hr).2 hlt).1, hlt, ((h r hr).2 hlt).2⟩
  have hpw := pairwise_sort (l.filter (!·.isPoint))
  cases hs : sort (l.filter (!·.isPoint)) with
  | nil => exact hab
  | cons f rest =>
    rw [hs] at hmem hpw
    obtain ⟨hf, hpw⟩ := List.pairwise_cons.1 hpw
    obtain ⟨ha, hlt, hb⟩ := hmem f (by simp)
    have hlaid := laid_mergeFrom hlt hb
      (fun r hr => ⟨start_le_of_precedes (hf r hr), (hmem r (by simp [hr])).2⟩) hpw
    rw [merge]
    cases hm : mergeFrom f rest with
    | nil => exact hab
    | cons g rest' =>
      rw [hm] at hlaid
      exact ⟨le_trans ha hlaid.1, hlaid.2⟩

/-- The ends of an effective fold are ends of folds. -/
lemma mem_effectiveFolds {r : Range} (h : r ∈ effectiveFolds l) :
    (∃ s ∈ l, s.start = r.start) ∧ ∃ s ∈ l, s.stop = r.stop := by
  rw [effectiveFolds_eq] at h
  have hmem : ∀ s ∈ sort (l.filter (!·.isPoint)), s ∈ l := fun s hs =>
    (List.mem_filter.1 ((sort_perm _).mem_iff.1 hs)).1
  cases hs : sort (l.filter (!·.isPoint)) with
  | nil => simp [hs, merge] at h
  | cons f rest =>
    rw [hs] at h hmem
    obtain ⟨⟨s₁, hs₁, he₁⟩, ⟨s₂, hs₂, he₂⟩⟩ := mem_mergeFrom h
    exact ⟨⟨s₁, hmem s₁ hs₁, he₁⟩, ⟨s₂, hmem s₂ hs₂, he₂⟩⟩

/-- Folds inside one fold are drawn as that fold. -/
lemma effectiveFolds_cover (hc : (⟨a, b⟩ : Range) ∈ l)
    (h : ∀ r ∈ l, a ≤ r.start ∧ r.start < r.stop ∧ r.stop ≤ b) :
    effectiveFolds l = [⟨a, b⟩] := by
  have hkeep : l.filter (!·.isPoint) = l := by
    rw [List.filter_eq_self]
    intro r hr
    simpa using (isPoint_eq_false (le_of_lt (h r hr).2.1)).2 (h r hr).2.1
  rw [effectiveFolds_eq, hkeep]
  have hmem : ∀ r ∈ sort l, r ∈ l := fun r hr => (sort_perm l).mem_iff.1 hr
  have hpw := pairwise_sort l
  have hc' := (sort_perm l).mem_iff.2 hc
  cases hs : sort l with
  | nil => simp [hs] at hc'
  | cons f rest =>
    rw [hs] at hmem hpw hc'
    obtain ⟨hf, hpw⟩ := List.pairwise_cons.1 hpw
    obtain ⟨haf, hff, hfb⟩ := h f (hmem f (by simp))
    have hstart : f.start = a := by
      rcases List.mem_cons.1 hc' with hc' | hc'
      · rw [← hc']
      · exact le_antisymm (start_le_of_precedes (hf _ hc')) haf
    refine mergeFrom_cover hstart (hstart ▸ hff) hfb
      (fun r hr => (h r (hmem r (by simp [hr]))).2) hpw ?_
    rcases List.mem_cons.1 hc' with hc' | hc'
    · exact Or.inl (by rw [← hc'])
    · exact Or.inr hc'

/-- Folds that stand one after the other are drawn as they are. -/
lemma effectiveFolds_of_laid (h : Laid a b l) : effectiveFolds l = l := by
  have hkeep : l.filter (!·.isPoint) = l := by
    rw [List.filter_eq_self]
    intro r hr
    simpa using (isPoint_eq_false (le_of_lt (h.mem hr).2.1)).2 (h.mem hr).2.1
  have hpw : l.Pairwise (precedes · · = true) := by
    refine (List.Pairwise.imp_of_mem ?_ h.pairwise)
    intro r s hr _ hrs
    exact precedes_iff.2 (Or.inl (lt_of_lt_of_le (h.mem hr).2.1 hrs))
  rw [effectiveFolds_eq, hkeep, ← eq_sort (.refl l) hpw, merge_of_laid h]

end TemplateFolding
