import Mathlib.Combinatorics.SimpleGraph.Connectivity.Connected
import TemplateFolding.Proofs.ScreenOrder

/-!
# Drawn folds are the components of overlap

One sweep over the sorted folds keeps a single running range, yet what it draws is a transitive
closure: the folds that are not empty form a graph, with an edge between two folds that overlap, and
the drawn folds are the hulls of its connected components. So folds that merely touch are drawn
apart unless some fold reaches over the place where they meet, and nothing depends on which fold was
made first.

The argument stays inside one drawn fold. Overlap does not lead out of it, since drawn folds do not
overlap. Conversely, from each fold in it a chain of overlapping folds leads on to one that stops
where the drawn fold stops: every stop further in lies strictly inside another fold. Two folds with
one stop overlap, so there is only one component.
-/

namespace TemplateFolding

open Point Range

/-- The folds that are not empty. -/
def solidFolds (l : List Range) : Set Range :=
  {r | r ∈ l ∧ r.isPoint = false}

/-- Ranges with an edge between any two that overlap. -/
def overlapGraph (s : Set Range) : SimpleGraph s where
  Adj r t := r ≠ t ∧ r.1.overlaps t.1
  symm := ⟨fun r t h => ⟨h.1.symm, by
    have ho := h.2
    simp only [overlaps, decide_eq_true_eq] at ho ⊢
    exact ho.symm⟩⟩
  loopless := ⟨fun _ h => h.1 rfl⟩

/-- The smallest range around some ranges: it starts where the first of them starts and stops where
the last of them stops. -/
structure IsHull (g : Range) (s : Set Range) : Prop where
  start : IsLeast (Range.start '' s) g.start
  stop : IsGreatest (Range.stop '' s) g.stop

/-- The ranges of a connected component. -/
def componentRanges {s : Set Range} (c : (overlapGraph s).ConnectedComponent) : Set Range :=
  Subtype.val '' c.supp

/-- Whether a range lies in another one. -/
def Range.Within (r g : Range) : Prop :=
  g.start ≤ r.start ∧ r.stop ≤ g.stop

/-- A set of ranges has one hull at most. -/
lemma IsHull.unique {f g : Range} {s : Set Range} (hf : IsHull f s) (hg : IsHull g s) : f = g := by
  have hstart : f.start = g.start :=
    le_antisymm (hf.start.2 hg.start.1) (hg.start.2 hf.start.1)
  have hstop : f.stop = g.stop :=
    le_antisymm (hg.stop.2 hf.stop.1) (hf.stop.2 hg.stop.1)
  cases f
  cases g
  simp_all

lemma IsHull.within {g r : Range} {s : Set Range} (hg : IsHull g s) (hr : r ∈ s) : r.Within g :=
  ⟨hg.start.2 ⟨r, hr, rfl⟩, hg.stop.2 ⟨r, hr, rfl⟩⟩

instance (l : List Range) : Finite (solidFolds l) :=
  ((List.finite_toSet l).subset fun _ h => h.1).to_subtype

/-- If each vertex short of a goal has a better neighbour, a goal can be reached. -/
lemma exists_reachable_goal {V : Type} [Finite V] {G : SimpleGraph V} (better : V → V → Prop)
    (htrans : ∀ u v w, better u v → better v w → better u w) (hirrefl : ∀ v, ¬better v v)
    (inside goal : V → Prop)
    (hstep : ∀ v, inside v → ¬goal v → ∃ w, inside w ∧ G.Adj v w ∧ better w v) (v : V)
    (hv : inside v) : ∃ w, G.Reachable v w ∧ goal w := by
  have : IsTrans V better := ⟨htrans⟩
  have : Std.Irrefl better := ⟨hirrefl⟩
  induction v using (Finite.wellFounded_of_trans_of_irrefl better).induction with
  | _ v ih =>
    by_cases hgoal : goal v
    · exact ⟨v, .refl v, hgoal⟩
    · obtain ⟨w, hw, hadj, hbetter⟩ := hstep v hv hgoal
      obtain ⟨u, hu, hgoal⟩ := ih w hbetter hw
      exact ⟨u, hadj.reachable.trans hu, hgoal⟩

section Components

variable {l l' : List Range} {f g r : Range} (h : ∀ r ∈ l, r.start ≤ r.stop)

include h

lemma lt_of_solid (hr : r ∈ solidFolds l) : r.start < r.stop :=
  (isPoint_eq_false (h r hr.1)).1 hr.2

lemma lt_of_mem_effectiveFolds (hg : g ∈ effectiveFolds l) : g.start < g.stop := by
  obtain ⟨b, hlaid⟩ := exists_laid_effectiveFolds h
  exact (hlaid.mem hg).2.1

/-- Drawn folds do not overlap. -/
lemma eq_of_overlap (hf : f ∈ effectiveFolds l) (hg : g ∈ effectiveFolds l) (hfg : f.start < g.stop)
    (hgf : g.start < f.stop) : f = g := by
  obtain ⟨b, hlaid⟩ := exists_laid_effectiveFolds h
  by_contra hne
  rcases hlaid.apart hf hg hne with hle | hle
  · exact lt_irrefl _ (lt_of_lt_of_le hgf hle)
  · exact lt_irrefl _ (lt_of_lt_of_le hfg hle)

lemma pairwise_start_effectiveFolds : (effectiveFolds l).Pairwise fun f g => f.start < g.start := by
  obtain ⟨b, hlaid⟩ := exists_laid_effectiveFolds h
  refine hlaid.pairwise.imp_of_mem fun {f g} hf _ hfg => ?_
  exact lt_of_lt_of_le (lt_of_mem_effectiveFolds h hf) hfg

/-! ## Inside one drawn fold -/

/-- What overlaps a range of a drawn fold lies in that drawn fold. -/
lemma within_of_overlaps (hg : g ∈ effectiveFolds l) (hr : r.Within g) (hf : f ∈ solidFolds l)
    (ho : r.overlaps f = true) : f.Within g := by
  rw [overlaps, decide_eq_true_eq] at ho
  obtain ⟨k, hk, hkf⟩ := exists_effectiveFolds_of_mem hf.1 (lt_of_solid h hf)
  have hgk : g = k := by
    apply eq_of_overlap h hg hk
    · exact lt_of_le_of_lt hr.1 (lt_of_lt_of_le ho.1 hkf.2)
    · exact lt_of_le_of_lt hkf.1 (lt_of_lt_of_le ho.2 hr.2)
  rw [hgk]
  exact hkf

/-- What is connected to a range within a drawn fold is within that fold. -/
lemma within_of_reachable (hg : g ∈ effectiveFolds l) {r f : solidFolds l}
    (hrf : (overlapGraph (solidFolds l)).Reachable r f) (hr : r.1.Within g) : f.1.Within g := by
  rw [SimpleGraph.reachable_iff_reflTransGen] at hrf
  induction hrf with
  | refl => exact hr
  | tail _ hadj ih => exact within_of_overlaps h hg ih (Subtype.property _) hadj.2

/-- In every drawn fold lies a fold. -/
lemma exists_solid_within (hg : g ∈ effectiveFolds l) : ∃ r ∈ solidFolds l, r.Within g := by
  obtain ⟨r, hr, hstart⟩ : ∃ r ∈ solidFolds l, r.start = g.start := by
    rcases exists_sorted_effectiveFolds l with ⟨hnone, -⟩ | ⟨k, rest, heq, -, -, hmem⟩
    · simp [hnone] at hg
    · rw [heq] at hg
      obtain ⟨⟨r, hr, hstart⟩, -⟩ := mem_mergeFrom hg
      exact ⟨r, (hmem r).1 hr, hstart⟩
  -- the fold it starts with lies in no other drawn fold
  obtain ⟨k, hk, hkr⟩ := exists_effectiveFolds_of_mem hr.1 (lt_of_solid h hr)
  have hgk : g = k := by
    apply eq_of_overlap h hg hk
    · exact hstart ▸ lt_of_lt_of_le (lt_of_solid h hr) hkr.2
    · exact lt_of_le_of_lt hkr.1 (hstart ▸ lt_of_mem_effectiveFolds h hg)
  rw [hgk]
  exact ⟨r, hr, hkr⟩

/-- An end of a fold that lies strictly inside a drawn fold lies strictly inside a neighbour. -/
lemma exists_adj_over (hg : g ∈ effectiveFolds l)
    (r : solidFolds l) {x : Point} (hx : x = r.1.start ∨ x = r.1.stop) (hgx : g.start < x)
    (hxg : x < g.stop) :
    ∃ f : solidFolds l, (overlapGraph (solidFolds l)).Adj r f ∧ f.1.start < x ∧ x < f.1.stop := by
  obtain ⟨f, hf, hfx, hxf⟩ := inside_effectiveFolds_iff.1 ⟨g, hg, hgx, hxg⟩
  have hflt : f.start < f.stop := lt_of_lt_of_le hfx (le_of_lt hxf)
  have hrlt := lt_of_solid h r.2
  refine ⟨⟨f, hf, (isPoint_eq_false (le_of_lt hflt)).2 hflt⟩, ⟨?_, ?_⟩, hfx, hxf⟩
  · -- the end is not inside its own fold
    intro heq
    rw [heq] at hx
    rcases hx with hx | hx
    · exact lt_irrefl _ (hx ▸ hfx)
    · exact lt_irrefl _ (hx ▸ hxf)
  · rw [overlaps, decide_eq_true_eq]
    rcases hx with hx | hx
    · exact ⟨hx ▸ hxf, lt_of_lt_of_le (hx ▸ hfx) (le_of_lt hrlt)⟩
    · exact ⟨lt_of_lt_of_le hrlt (le_of_lt (hx ▸ hxf)), hx ▸ hfx⟩

/-- A chain of overlapping folds leads to one that stops where the drawn fold stops. -/
lemma exists_reachable_stop (hg : g ∈ effectiveFolds l) (r : solidFolds l) (hr : r.1.Within g) :
    ∃ f : solidFolds l, (overlapGraph (solidFolds l)).Reachable r f ∧ f.1.stop = g.stop := by
  apply exists_reachable_goal (fun f r => r.1.stop < f.1.stop)
    (fun _ _ _ h₁ h₂ => lt_of_lt_of_le h₂ (le_of_lt h₁)) (fun _ => Point.lt_irrefl _)
    (fun r => r.1.Within g) (fun r => r.1.stop = g.stop) _ r hr
  intro r hr hshort
  have hlt : r.1.stop < g.stop := (eq_or_lt_of_le hr.2).resolve_left hshort
  obtain ⟨f, hadj, -, hbeyond⟩ := exists_adj_over h hg r (Or.inr rfl)
    (lt_of_le_of_lt hr.1 (lt_of_solid h r.2)) hlt
  exact ⟨f, within_of_overlaps h hg hr f.2 hadj.2, hadj, hbeyond⟩

/-- A chain of overlapping folds leads to one that starts where the drawn fold starts. -/
lemma exists_reachable_start (hg : g ∈ effectiveFolds l) (r : solidFolds l) (hr : r.1.Within g) :
    ∃ f : solidFolds l, (overlapGraph (solidFolds l)).Reachable r f ∧ f.1.start = g.start := by
  apply exists_reachable_goal (fun f r => f.1.start < r.1.start)
    (fun _ _ _ h₁ h₂ => lt_of_lt_of_le h₁ (le_of_lt h₂)) (fun _ => Point.lt_irrefl _)
    (fun r => r.1.Within g) (fun r => r.1.start = g.start) _ r hr
  intro r hr hlate
  have hlt : g.start < r.1.start := (eq_or_lt_of_le hr.1).resolve_left (Ne.symm hlate)
  obtain ⟨f, hadj, hbefore, -⟩ := exists_adj_over h hg r (Or.inl rfl) hlt
    (lt_of_lt_of_le (lt_of_solid h r.2) hr.2)
  exact ⟨f, within_of_overlaps h hg hr f.2 hadj.2, hadj, hbefore⟩

/-- The folds of one drawn fold are linked. -/
lemma reachable_of_within (hg : g ∈ effectiveFolds l) (r f : solidFolds l) (hr : r.1.Within g)
    (hf : f.1.Within g) : (overlapGraph (solidFolds l)).Reachable r f := by
  obtain ⟨r', hrr', hr'⟩ := exists_reachable_stop h hg r hr
  obtain ⟨f', hff', hf'⟩ := exists_reachable_stop h hg f hf
  -- folds with one stop are the same or overlap
  by_cases heq : r' = f'
  · exact hrr'.trans (heq ▸ hff'.symm)
  · have hadj : (overlapGraph (solidFolds l)).Adj r' f' := by
      refine ⟨heq, ?_⟩
      rw [overlaps, decide_eq_true_eq, hr', hf', ← hr']
      exact ⟨lt_of_solid h r'.2, hr'.trans hf'.symm ▸ lt_of_solid h f'.2⟩
    exact hrr'.trans (hadj.reachable.trans hff'.symm)

/-! ## Drawn folds and components -/

/-- A drawn fold is the hull of the component of each fold in it. -/
lemma isHull_of_within (hg : g ∈ effectiveFolds l) (r : solidFolds l) (hr : r.1.Within g) :
    IsHull g (componentRanges ((overlapGraph (solidFolds l)).connectedComponentMk r)) := by
  have hmem : ∀ f : solidFolds l, (overlapGraph (solidFolds l)).Reachable r f →
      f.1 ∈ componentRanges ((overlapGraph (solidFolds l)).connectedComponentMk r) := by
    intro f hrf
    exact ⟨f, SimpleGraph.ConnectedComponent.sound hrf.symm, rfl⟩
  have hwithin : ∀ k ∈ componentRanges ((overlapGraph (solidFolds l)).connectedComponentMk r),
      k.Within g := by
    intro k hk
    obtain ⟨f, hf, rfl⟩ := hk
    exact within_of_reachable h hg (SimpleGraph.ConnectedComponent.exact hf).symm hr
  obtain ⟨first, hfirst, hstart⟩ := exists_reachable_start h hg r hr
  obtain ⟨last, hlast, hstop⟩ := exists_reachable_stop h hg r hr
  constructor
  · refine ⟨⟨first, hmem first hfirst, hstart⟩, ?_⟩
    intro p hp
    obtain ⟨k, hk, rfl⟩ := hp
    exact (hwithin k hk).1
  · refine ⟨⟨last, hmem last hlast, hstop⟩, ?_⟩
    intro p hp
    obtain ⟨k, hk, rfl⟩ := hp
    exact (hwithin k hk).2

/-- Each component has a drawn fold that is its hull. -/
lemma exists_isHull (c : (overlapGraph (solidFolds l)).ConnectedComponent) :
    ∃ g ∈ effectiveFolds l, IsHull g (componentRanges c) := by
  induction c using SimpleGraph.ConnectedComponent.ind with
  | _ r =>
    obtain ⟨g, hg, hgr⟩ := exists_effectiveFolds_of_mem r.2.1 (lt_of_solid h r.2)
    exact ⟨g, hg, isHull_of_within h hg r hgr⟩

/-- What is drawn are the hulls of the components. -/
lemma mem_effectiveFolds_iff_isHull :
    g ∈ effectiveFolds l ↔
      ∃ c : (overlapGraph (solidFolds l)).ConnectedComponent, IsHull g (componentRanges c) := by
  constructor
  · intro hg
    obtain ⟨r, hr, hrg⟩ := exists_solid_within h hg
    exact ⟨_, isHull_of_within h hg ⟨r, hr⟩ hrg⟩
  · intro hc
    obtain ⟨c, hc⟩ := hc
    obtain ⟨k, hk, hkc⟩ := exists_isHull h c
    rw [hc.unique hkc]
    exact hk

/-- No two components have the same hull. -/
lemma eq_of_isHull {c d : (overlapGraph (solidFolds l)).ConnectedComponent}
    (hc : IsHull g (componentRanges c)) (hd : IsHull g (componentRanges d)) : c = d := by
  have hg := (mem_effectiveFolds_iff_isHull h).2 ⟨c, hc⟩
  obtain ⟨r, hr⟩ := c.nonempty_supp
  obtain ⟨f, hf⟩ := d.nonempty_supp
  have hrf := reachable_of_within h hg r f (hc.within ⟨r, hr, rfl⟩) (hd.within ⟨f, hf, rfl⟩)
  rw [← hr, ← hf]
  exact SimpleGraph.ConnectedComponent.sound hrf

/-- Only the ranges of the folds matter, not how often or in which order they are listed. -/
lemma effectiveFolds_of_mem_iff (hmem : ∀ r, r ∈ l' ↔ r ∈ l) :
    effectiveFolds l' = effectiveFolds l := by
  have h' : ∀ r ∈ l', r.start ≤ r.stop := fun r hr => h r ((hmem r).1 hr)
  have hsolid : solidFolds l' = solidFolds l := by
    ext r
    show r ∈ l' ∧ r.isPoint = false ↔ r ∈ l ∧ r.isPoint = false
    rw [hmem]
  have hdrawn : ∀ g, g ∈ effectiveFolds l' ↔ g ∈ effectiveFolds l := by
    intro g
    rw [mem_effectiveFolds_iff_isHull h', mem_effectiveFolds_iff_isHull h, hsolid]
  have hpw := pairwise_start_effectiveFolds h
  have hpw' := pairwise_start_effectiveFolds h'
  have hnodup : ∀ {k : List Range}, k.Pairwise (fun f g => f.start < g.start) → k.Nodup :=
    fun hk => hk.imp fun {f g} hfg (heq : f = g) => Point.lt_irrefl g.start (heq ▸ hfg)
  -- a list in strict order is determined by its members
  have hperm := (List.perm_ext_iff_of_nodup (hnodup hpw') (hnodup hpw)).2 hdrawn
  refine hperm.eq_of_pairwise ?_ hpw' hpw
  intro f g _ _ hfg hgf
  exact absurd (lt_of_lt_of_le hfg (le_of_lt hgf)) (Point.lt_irrefl _)

/-- Two touching folds are drawn as one exactly when a third one overlaps both. -/
lemma exists_within_both_iff (hr : r ∈ solidFolds l)
    (hf : f ∈ solidFolds l) (htouch : r.stop = f.start) :
    (∃ g ∈ effectiveFolds l, r.Within g ∧ f.Within g) ↔
      ∃ k ∈ l, k.overlaps r = true ∧ k.overlaps f = true := by
  have hrlt := lt_of_solid h hr
  have hflt := lt_of_solid h hf
  simp only [overlaps, decide_eq_true_eq]
  constructor
  · rintro ⟨g, hg, hrg, hfg⟩
    -- the place where they touch lies strictly inside the drawn fold
    obtain ⟨k, hk, hkx, hxk⟩ := inside_effectiveFolds_iff.1
      ⟨g, hg, lt_of_le_of_lt hrg.1 hrlt, htouch ▸ lt_of_lt_of_le hflt hfg.2⟩
    refine ⟨k, hk, ⟨hkx, lt_of_lt_of_le hrlt (le_of_lt hxk)⟩, ?_, htouch ▸ hxk⟩
    exact lt_of_lt_of_le (htouch ▸ hkx) (le_of_lt hflt)
  · rintro ⟨k, hk, ⟨hkr, hrk⟩, hkf, hfk⟩
    have hklt : k.start < k.stop := lt_of_lt_of_le hkr (le_of_lt (htouch ▸ hfk))
    have hsolid : k ∈ solidFolds l := ⟨hk, (isPoint_eq_false (le_of_lt hklt)).2 hklt⟩
    obtain ⟨g, hg, hgk⟩ := exists_effectiveFolds_of_mem hk hklt
    refine ⟨g, hg, within_of_overlaps h hg hgk hr ?_, within_of_overlaps h hg hgk hf ?_⟩
    · rw [overlaps, decide_eq_true_eq]
      exact ⟨hkr, hrk⟩
    · rw [overlaps, decide_eq_true_eq]
      exact ⟨hkf, hfk⟩

end Components

/-! ## Folds of an editor -/

namespace Editor

/-- Folds are listed in the order in which they were made. -/
lemma Kept.values_runAll_fold {e : Editor} (h : e.Kept) (made : List Range) :
    (e.runAll (made.map .fold)).folds.values = e.folds.values ++ made.map e.clipRange := by
  induction made generalizing e with
  | nil => exact (List.append_nil _).symm
  | cons r made ih =>
    have hvalues : (e.fold r).2.folds.values = e.folds.values ++ [e.clipRange r] := by
      show (e.folds.insert e.nextId (e.clipRange r)).values = _
      rw [Table.values, Table.entries_insert_of_below h.folds, List.map_append]
      rfl
    have hclip : (e.fold r).2.clipRange = e.clipRange := rfl
    show ((e.fold r).2.runAll (made.map .fold)).folds.values = _
    rw [ih (h.fold r), hvalues, hclip, List.map_cons, List.append_assoc]
    rfl

end Editor

/-- **Drawn folds.** Let no fold stop before it starts, as is so in every editor. The drawn folds
are the hulls of the connected components of overlap among the folds that are not empty, one for
each component and sorted by their starts. They are not empty and stand one after the other, folds
that touch are drawn as one only if a third one overlaps both, and neither the order of the folds in
the list nor that in which an editor made them matters. -/
theorem effectiveFolds_eq_component_hulls (l : List Range) (h : ∀ r ∈ l, r.start ≤ r.stop) :
    (∀ c : (overlapGraph (solidFolds l)).ConnectedComponent,
      ∃! g, g ∈ effectiveFolds l ∧ IsHull g (componentRanges c)) ∧
    (∀ g ∈ effectiveFolds l,
      ∃! c : (overlapGraph (solidFolds l)).ConnectedComponent, IsHull g (componentRanges c)) ∧
    ((effectiveFolds l).Pairwise fun f g => f.start < g.start) ∧
    (∀ g ∈ effectiveFolds l, g.start < g.stop) ∧
    ((effectiveFolds l).Pairwise fun f g => f.stop ≤ g.start) ∧
    (∀ r ∈ solidFolds l, ∀ f ∈ solidFolds l, r.stop = f.start →
      ((∃ g ∈ effectiveFolds l, r.Within g ∧ f.Within g) ↔
        ∃ k ∈ l, k.overlaps r = true ∧ k.overlaps f = true)) ∧
    (∀ l', (∀ r, r ∈ l' ↔ r ∈ l) → effectiveFolds l' = effectiveFolds l) ∧
    ∀ (e : Editor) (made : List Range), e.Reachable → e.folds.values = [] →
      (made.map e.clipRange).Perm l →
      effectiveFolds (e.runAll (made.map .fold)).folds.values = effectiveFolds l := by
  obtain ⟨b, hlaid⟩ := exists_laid_effectiveFolds h
  refine ⟨?_, ?_, pairwise_start_effectiveFolds h, fun g => lt_of_mem_effectiveFolds h,
    hlaid.pairwise, fun r hr f hf => exists_within_both_iff h hr hf,
    fun l' => effectiveFolds_of_mem_iff h, ?_⟩
  · intro c
    obtain ⟨g, hg, hgc⟩ := exists_isHull h c
    exact ⟨g, ⟨hg, hgc⟩, fun k hk => hk.2.unique hgc⟩
  · intro g hg
    obtain ⟨c, hc⟩ := (mem_effectiveFolds_iff_isHull h).1 hg
    exact ⟨c, hc, fun d hd => eq_of_isHull h hd hc⟩
  · intro e made he hnone hperm
    rw [he.kept.values_runAll_fold, hnone, List.nil_append]
    exact effectiveFolds_congr hperm

/-- Two folds that touch and a third that reaches over the place, a fold that touches the second
one across a line ending, and an empty fold, made from the last to the first: the first two are
drawn as one, the other stays apart. -/
theorem effectiveFolds_eq_component_hulls_bridged :
    let l : List Range := [⟨⟨0, 4⟩, ⟨0, 6⟩⟩, ⟨⟨0, 1⟩, ⟨0, 4⟩⟩, ⟨⟨0, 6⟩, ⟨1, 0⟩⟩, ⟨⟨0, 3⟩, ⟨0, 5⟩⟩,
      ⟨⟨0, 2⟩, ⟨0, 2⟩⟩]
    let e : Editor := { text := "abcdef\n".toList }
    (∀ r ∈ l, r.start ≤ r.stop) ∧
      (∃ g ∈ effectiveFolds l, (⟨⟨0, 1⟩, ⟨0, 4⟩⟩ : Range).Within g ∧
        (⟨⟨0, 4⟩, ⟨0, 6⟩⟩ : Range).Within g) ∧
      ¬(∃ g ∈ effectiveFolds l, (⟨⟨0, 4⟩, ⟨0, 6⟩⟩ : Range).Within g ∧
        (⟨⟨0, 6⟩, ⟨1, 0⟩⟩ : Range).Within g) ∧
      effectiveFolds (e.runAll (l.reverse.map .fold)).folds.values = effectiveFolds l := by
  intro l e
  have hordered : ∀ r ∈ l, r.start ≤ r.stop := by decide
  obtain ⟨-, -, -, -, -, htouch, -, hmade⟩ := effectiveFolds_eq_component_hulls l hordered
  have hsolid : ∀ r ∈ l, r.isPoint = false → r ∈ solidFolds l := fun r hr hp => ⟨hr, hp⟩
  refine ⟨hordered, ?_, ?_, ?_⟩
  · exact (htouch _ (hsolid _ (by decide) (by decide)) _ (hsolid _ (by decide) (by decide)) rfl).2
      ⟨⟨⟨0, 3⟩, ⟨0, 5⟩⟩, by decide, by decide, by decide⟩
  · rw [htouch _ (hsolid _ (by decide) (by decide)) _ (hsolid _ (by decide) (by decide)) rfl]
    decide
  · exact hmade e l.reverse ⟨_, _, [], rfl⟩ rfl (by decide)

end TemplateFolding
