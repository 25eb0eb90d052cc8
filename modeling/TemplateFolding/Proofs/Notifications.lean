import TemplateFolding.Editor.Basic
import TemplateFolding.Proofs.Tables

/-!
# What the queue says of a marker

The notifications of one marker that have not been drained are one notification. `Accounts` says that
the queue bridges the gap between the extent at which a marker was last known and its present one:
either nothing is queued and the two agree, or the queued notification leads from the one to the
other. Every change that is made by `track` keeps this.
-/

namespace TemplateFolding

/-! ## The queue -/

namespace MarkerChange

/-- The notification of a marker in a queue. -/
def of? (id : MarkerId) (queue : List MarkerChange) : Option MarkerChange :=
  queue.find? (·.marker == id)

/-- What a queue holds for a marker after one more notification of it. -/
def absorb (pending : Option MarkerChange) (c : MarkerChange) : MarkerChange :=
  match pending with
  | none => c
  | some p => p.followedBy c

variable {queue : List MarkerChange} {c p : MarkerChange} {id : MarkerId}

@[simp] lemma followedBy_marker (c d : MarkerChange) : (c.followedBy d).marker = c.marker := rfl

@[simp] lemma of?_nil (id : MarkerId) : of? id [] = none := rfl

/-- The notification that is found for a marker is about that marker. -/
lemma marker_of? (h : of? id queue = some c) : c.marker = id := by
  have := List.find?_some h
  simpa using this

lemma of?_eq_none (h : ∀ c ∈ queue, c.marker ≠ id) : of? id queue = none := by
  rw [of?, List.find?_eq_none]
  intro c hc
  simpa using h c hc

/-- The first notification about a marker is the one that is found. -/
lemma of?_cons : of? id (c :: queue) = if c.marker = id then some c else of? id queue := by
  rw [of?, List.find?_cons]
  by_cases h : c.marker = id
  · simp [h]
  · rw [if_neg h, beq_false_of_ne h, of?]

/-- A notification at the end is found only if there is none before it. -/
lemma of?_append_singleton :
    of? id (queue ++ [c]) = (of? id queue).or (if c.marker = id then some c else none) := by
  rw [of?, List.find?_append, ← of?]
  by_cases h : c.marker = id <;> simp [h]

/-- Replacing each notification about a marker by its continuation replaces what is found. -/
lemma of?_map_followedBy :
    of? id (queue.map fun p => if p.marker = c.marker then p.followedBy c else p) =
      (of? id queue).map fun p => if p.marker = c.marker then p.followedBy c else p := by
  induction queue with
  | nil => rfl
  | cons p queue ih =>
    rw [List.map_cons, of?_cons, of?_cons, ih]
    have hm : (if p.marker = c.marker then p.followedBy c else p).marker = p.marker := by
      split_ifs <;> rfl
    rw [hm]
    split_ifs <;> simp_all

/-- A queued notification concerns its own marker only. -/
lemma of?_enqueue : of? id (enqueue queue c) =
    if c.marker = id then some (absorb (of? id queue) c) else of? id queue := by
  rw [enqueue]
  split
  · -- one of this marker is queued already, and the two become one
    rename_i hany
    rw [of?_map_followedBy]
    by_cases h : c.marker = id
    · obtain ⟨p, hp, hpm⟩ := List.any_eq_true.1 hany
      have hsome : (of? id queue).isSome = true := by
        rw [of?, List.find?_isSome]
        exact ⟨p, hp, by simpa [← h] using hpm⟩
      obtain ⟨q, hq⟩ := Option.isSome_iff_exists.1 hsome
      have hqm := marker_of? hq
      simp [hq, h, hqm, absorb]
    · rw [if_neg h]
      cases hq : of? id queue with
      | none => rfl
      | some q =>
        have hne : q.marker ≠ c.marker := by
          rw [marker_of? hq]
          exact fun heq => h heq.symm
        simp [hne]
  · -- the first one of this marker goes to the end
    rename_i hany
    rw [of?_append_singleton]
    by_cases h : c.marker = id
    · have hnone : of? id queue = none := of?_eq_none fun p hp hpm => hany <| by
        rw [List.any_eq_true]
        exact ⟨p, hp, by simp [hpm, h]⟩
      simp [hnone, h, absorb]
    · simp [h]

/-- Queueing notifications of different markers. -/
lemma of?_foldl_enqueue {changes : List MarkerChange}
    (hd : changes.Pairwise fun c d => c.marker ≠ d.marker) (queue : List MarkerChange)
    (id : MarkerId) : of? id (changes.foldl enqueue queue) =
      match of? id changes with
      | none => of? id queue
      | some c => some (absorb (of? id queue) c) := by
  induction changes generalizing queue with
  | nil => rfl
  | cons c changes ih =>
    obtain ⟨hc, hd⟩ := List.pairwise_cons.1 hd
    rw [List.foldl_cons, ih hd, of?_cons, of?_enqueue]
    by_cases h : c.marker = id
    · have hnone : of? id changes = none := of?_eq_none fun d hd hdm => hc d hd (h.trans hdm.symm)
      simp [h, hnone]
    · simp [h]

/-- After one more notification the queue mentions the markers it did and that of the new one. -/
lemma marker_mem_enqueue (h : p ∈ enqueue queue c) :
    (∃ d ∈ queue, d.marker = p.marker) ∨ c.marker = p.marker := by
  rw [enqueue] at h
  split at h
  · obtain ⟨d, hd, rfl⟩ := List.mem_map.1 h
    left
    refine ⟨d, hd, ?_⟩
    split_ifs <;> rfl
  · rcases List.mem_append.1 h with h | h
    · exact Or.inl ⟨p, h, rfl⟩
    · exact Or.inr (by rw [List.mem_singleton.1 h])

/-- After more notifications the queue mentions the markers it did and those of the new ones. -/
lemma marker_mem_foldl_enqueue {changes : List MarkerChange} (h : p ∈ changes.foldl enqueue queue) :
    (∃ d ∈ queue, d.marker = p.marker) ∨ ∃ d ∈ changes, d.marker = p.marker := by
  induction changes generalizing queue with
  | nil => exact Or.inl ⟨p, h, rfl⟩
  | cons c changes ih =>
    rcases ih h with ⟨d, hd, hdp⟩ | ⟨d, hd, hdp⟩
    · rcases marker_mem_enqueue hd with ⟨d', hd', hd'd⟩ | hcd
      · exact Or.inl ⟨d', hd', hd'd.trans hdp⟩
      · exact Or.inr ⟨c, by simp, hcd.trans hdp⟩
    · exact Or.inr ⟨d, List.mem_cons_of_mem _ hd, hdp⟩

/-- Queueing leaves one notification of each marker. -/
lemma pairwise_enqueue (h : queue.Pairwise fun c d => c.marker ≠ d.marker) (c : MarkerChange) :
    (enqueue queue c).Pairwise fun c d => c.marker ≠ d.marker := by
  have hm : ∀ p : MarkerChange,
      (if p.marker = c.marker then p.followedBy c else p).marker = p.marker := by
    intro p
    split_ifs <;> rfl
  rw [enqueue]
  split
  · rw [List.pairwise_map]
    refine h.imp ?_
    intro p q hpq
    rw [hm, hm]
    exact hpq
  · rename_i hany
    rw [List.pairwise_append]
    refine ⟨h, List.pairwise_singleton _ _, ?_⟩
    intro p hp q hq heq
    apply hany
    rw [List.any_eq_true]
    exact ⟨p, hp, by simp [heq, List.mem_singleton.1 hq]⟩

/-- A queue with one notification for each marker stays one, however many are entered. -/
lemma pairwise_foldl_enqueue (h : queue.Pairwise fun c d => c.marker ≠ d.marker)
    (changes : List MarkerChange) :
    (changes.foldl enqueue queue).Pairwise fun c d => c.marker ≠ d.marker := by
  induction changes generalizing queue with
  | nil => exact h
  | cons c changes ih => exact ih (pairwise_enqueue h c)

end MarkerChange

/-! ## The notifications that a change causes -/

namespace Editor

open MarkerChange

variable {e before after : Editor} {id : MarkerId} {m m' : Marker} {c : MarkerChange}
  {known : Range}

lemma marker_changeOf? (h : changeOf? before after id m = some c) : c.marker = id := by
  rw [changeOf?] at h
  split at h
  · simp at h
  · simp only at h
    split_ifs at h
    rw [← Option.some.inj h]

/-- What is found among the notifications of a list of markers is that of the entry with the number.
-/
lemma of?_filterMap (due : Nat → Marker → Option MarkerChange)
    (hdue : ∀ k m c, due k m = some c → c.marker = k) {l : List (Nat × Marker)}
    (hl : l.Pairwise (·.1 < ·.1)) :
    of? id (l.filterMap fun e => due e.1 e.2) = (Table.find? id l).bind (due id) := by
  induction l with
  | nil => rfl
  | cons e l ih =>
    obtain ⟨k, m⟩ := e
    obtain ⟨hk, hl⟩ := List.pairwise_cons.1 hl
    have hcons : of? id (((k, m) :: l).filterMap fun e => due e.1 e.2) =
        if k = id then (due k m).or (of? id (l.filterMap fun e => due e.1 e.2))
        else of? id (l.filterMap fun e => due e.1 e.2) := by
      cases hc : due k m with
      | none => simp [hc]
      | some c => simp [hc, of?_cons, hdue k m c hc]
    rw [hcons, ih hl, Table.find?]
    split_ifs with hkid
    · subst hkid
      rw [Table.find?_eq_none fun e he => Nat.ne_of_gt (hk e he)]
      simp
    · rfl

/-- A change notifies the markers that were valid before, each by what has become of it. -/
lemma of?_changesSince (before after : Editor) (id : MarkerId) :
    of? id (changesSince before after) = (before.markers.get? id).bind fun m =>
      if m.valid then changeOf? before after id m else none := by
  refine of?_filterMap (fun k m => if m.valid then changeOf? before after k m else none)
    (fun k m c hc => ?_) before.markers.ascending
  split_ifs at hc
  exact marker_changeOf? hc

/-- Only a marker that was valid before the change is notified. -/
lemma mem_changesSince (h : c ∈ changesSince before after) :
    ∃ m, before.markers.get? c.marker = some m ∧ m.valid = true := by
  obtain ⟨⟨k, m⟩, hk, hc⟩ := List.mem_filterMap.1 h
  simp only at hc
  split_ifs at hc with hv
  rw [marker_changeOf? hc]
  exact ⟨m, Table.mem_entries_iff.1 hk, hv⟩

/-- A change notifies each marker once. -/
lemma pairwise_changesSince (before after : Editor) :
    (changesSince before after).Pairwise fun c d => c.marker ≠ d.marker := by
  refine List.pairwise_filterMap.2 (before.markers.ascending.imp ?_)
  rintro ⟨k, m⟩ ⟨k', m'⟩ hlt c hc d hd
  simp only at hlt hc hd
  split_ifs at hc hd
  rw [marker_changeOf? hc, marker_changeOf? hd]
  exact Nat.ne_of_lt hlt

/-! ## What `track` keeps -/

section Track

variable (change : Editor → Editor) (e : Editor)

@[simp] lemma track_text : (track change e).text = (change e).text := rfl
@[simp] lemma track_settings : (track change e).settings = (change e).settings := rfl
@[simp] lemma track_cursor : (track change e).cursor = (change e).cursor := rfl
@[simp] lemma track_folds : (track change e).folds = (change e).folds := rfl
@[simp] lemma track_markers : (track change e).markers = (change e).markers := rfl
@[simp] lemma track_decorations : (track change e).decorations = (change e).decorations := rfl
@[simp] lemma track_nextId : (track change e).nextId = (change e).nextId := rfl

end Track

/-- The notification of a marker that is queued. -/
def pending? (e : Editor) (id : MarkerId) : Option MarkerChange :=
  of? id e.markerChanges

/-- What is queued for a marker after a tracked change: what was queued, and then what is due. -/
lemma pending?_track {change : Editor → Editor}
    (hq : (change e).markerChanges = e.markerChanges) (hm : e.markers.get? id = some m) :
    (track change e).pending? id =
      match (if m.valid then changeOf? e (change e) id m else none) with
      | none => e.pending? id
      | some c => some (absorb (e.pending? id) c) := by
  have hfold := of?_foldl_enqueue (pairwise_changesSince e (change e)) (change e).markerChanges id
  rw [of?_changesSince, hm, Option.bind_some] at hfold
  rw [pending?, pending?, ← hq]
  exact hfold

/-- The queue bridges the gap between the extent at which a marker was last known and what has
become of it since. -/
def Accounts (e : Editor) (id : MarkerId) (m : Marker) (known : Range) : Prop :=
  match e.pending? id with
  | none => m.valid = true ∧ e.screenRange m.range = known
  | some c => c.old = known ∧ c.valid = m.valid ∧ c.textChanged = !c.valid ∧
      (m.valid = true → c.new = e.screenRange m.range)

/-- A tracked change keeps the account of every marker. One that is not valid must stay as it is. -/
theorem Accounts.track {change : Editor → Editor} (h : e.Accounts id m known)
    (hq : (change e).markerChanges = e.markerChanges) (hm : e.markers.get? id = some m)
    (hm' : (change e).markers.get? id = some m') (hinv : m.valid = false → m' = m) :
    (Editor.track change e).Accounts id m' known := by
  rw [Accounts] at h ⊢
  rw [pending?_track hq hm]
  by_cases hv : m.valid = true
  · rw [if_pos hv]
    have hchange : changeOf? e (change e) id m =
        if m'.valid ∧ m'.range = m.range ∧
          (change e).screenRange m'.range = e.screenRange m.range then none
        else some ⟨id, e.screenRange m.range, (change e).screenRange m'.range, m'.valid, !m'.valid⟩ := by
      rw [changeOf?, hm']
    rw [hchange]
    -- what changes nothing is not queued; anything else is absorbed by what is pending
    by_cases hsame : m'.valid ∧ m'.range = m.range ∧
        (change e).screenRange m'.range = e.screenRange m.range
    · rw [if_pos hsame]
      obtain ⟨hv', hr, hscreen⟩ := hsame
      cases hp : e.pending? id with
      | none =>
        rw [hp] at h
        exact ⟨hv', hscreen.trans h.2⟩
      | some c =>
        rw [hp] at h
        obtain ⟨h₁, h₂, h₃, h₄⟩ := h
        exact ⟨h₁, by rw [h₂, hv, hv'], h₃, fun _ => (h₄ hv).trans hscreen.symm⟩
    · rw [if_neg hsame]
      cases hp : e.pending? id with
      | none =>
        rw [hp] at h
        exact ⟨h.2, rfl, rfl, fun _ => rfl⟩
      | some c =>
        rw [hp] at h
        obtain ⟨h₁, h₂, h₃, -⟩ := h
        refine ⟨h₁, ?_, ?_, fun _ => rfl⟩
        · simp [absorb, followedBy, h₂, hv]
        · simp [absorb, followedBy, h₃]
  · -- the notification that the marker is not valid any more is pending, and nothing follows it
    have hv : m.valid = false := by simpa using hv
    rw [if_neg (by simp [hv])]
    rw [hinv hv]
    cases hp : e.pending? id with
    | none =>
      rw [hp] at h
      exact absurd h.1 (by simp [hv])
    | some c =>
      rw [hp] at h
      obtain ⟨h₁, h₂, h₃, -⟩ := h
      exact ⟨h₁, h₂, h₃, fun ht => absurd ht (by simp [hv])⟩

/-- The account of a marker rests on the queue, the text and the folds alone. -/
lemma Accounts.congr {e' : Editor} (h : e.Accounts id m known)
    (hp : e'.pending? id = e.pending? id) (ht : e'.text = e.text) (hf : e'.folds = e.folds) :
    e'.Accounts id m known := by
  have hs : e'.screenRange m.range = e.screenRange m.range := by
    rw [screenRange, screenRange, ht, hf]
  rw [Accounts] at h ⊢
  rw [hp, hs]
  exact h

end Editor

end TemplateFolding
