import Mathlib.Data.List.Nodup
import Mathlib.Data.List.Perm.Basic
import TemplateFolding.Table

/-!
# Laws of tables

Every table operation is described by what `get?` finds afterwards, and a table is determined by what
is found in it. The order of the entries matters in one place only: a key above all others goes to
the end.
-/

namespace TemplateFolding.Table

variable {α β : Type} {t u : Table α} {k key : Nat} {v value : α}

/-! ## Looking up -/

/-- A key that no entry has is not found. -/
lemma find?_eq_none {l : List (Nat × α)} (h : ∀ e ∈ l, e.1 ≠ k) : find? k l = none := by
  induction l with
  | nil => rfl
  | cons e l ih =>
    rw [find?, if_neg (h e (by simp))]
    exact ih fun e he => h e (List.mem_cons_of_mem _ he)

/-- What is found at a key is an entry. -/
lemma mem_of_find? {l : List (Nat × α)} (h : find? k l = some v) : (k, v) ∈ l := by
  induction l with
  | nil => simp [find?] at h
  | cons e l ih =>
    obtain ⟨k', v'⟩ := e
    rw [find?] at h
    split at h
    · simp_all
    · exact List.mem_cons_of_mem _ (ih h)

/-- Among ascending keys each entry is found at its key. -/
lemma find?_of_mem {l : List (Nat × α)} (hl : l.Pairwise (·.1 < ·.1)) (h : (k, v) ∈ l) :
    find? k l = some v := by
  induction l with
  | nil => simp at h
  | cons e l ih =>
    obtain ⟨k', v'⟩ := e
    obtain ⟨he, hl⟩ := List.pairwise_cons.1 hl
    rw [find?]
    rcases List.mem_cons.1 h with h | h
    · obtain ⟨rfl, rfl⟩ := Prod.mk.inj h
      rw [if_pos rfl]
    · have hlt : k' < k := he _ h
      rw [if_neg (Nat.ne_of_lt hlt), ih hl h]

/-- A value is found at a key exactly when the two are an entry. -/
lemma mem_entries_iff : (k, v) ∈ t.entries ↔ t.get? k = some v :=
  ⟨find?_of_mem t.ascending, mem_of_find?⟩

/-- The values are what is found at some key. -/
lemma mem_values_iff : v ∈ t.values ↔ ∃ k, t.get? k = some v := by
  simp only [values, List.mem_map, Prod.exists, exists_eq_right, mem_entries_iff]

lemma mem_keys_iff : k ∈ t.keys ↔ ∃ v, t.get? k = some v := by
  simp only [keys, List.mem_map, Prod.exists, mem_entries_iff]
  constructor
  · rintro ⟨k', v, h, rfl⟩
    exact ⟨v, h⟩
  · rintro ⟨v, h⟩
    exact ⟨k, v, h, rfl⟩

/-- A table without keys is one in which nothing is found. -/
lemma keys_eq_nil_iff : t.keys = [] ↔ ∀ k, t.get? k = none := by
  simp only [List.eq_nil_iff_forall_not_mem, mem_keys_iff, Option.eq_none_iff_forall_ne_some,
    not_exists, ne_eq]

lemma pairwise_keys (t : Table α) : t.keys.Pairwise (· < ·) :=
  List.pairwise_map.2 t.ascending

lemma nodup_keys (t : Table α) : t.keys.Nodup :=
  t.pairwise_keys.imp Nat.ne_of_lt

/-- The values are what is found at the keys. -/
lemma map_some_values (t : Table α) : t.values.map some = t.keys.map t.get? := by
  rw [values, keys, List.map_map, List.map_map]
  exact List.map_congr_left fun e he => (mem_entries_iff.1 he).symm

/-! ## What the operations leave at a key -/

@[simp] lemma get?_empty (k : Nat) : (empty : Table α).get? k = none := rfl

/-- After an insertion the new value is found at its key, and nothing else has changed. -/
lemma get?_insert (t : Table α) (key : Nat) (value : α) (k : Nat) :
    (t.insert key value).get? k = if k = key then some value else t.get? k := by
  have hplace : ∀ l : List (Nat × α),
      find? k (place key value l) = if k = key then some value else find? k l := by
    intro l
    fun_induction place key value l with
    | case1 => simp [find?, eq_comm]
    | case2 k' v' rest hlt => simp only [find?, eq_comm]
    | case3 v' rest =>
      simp only [find?, eq_comm]
      split_ifs <;> rfl
    | case4 k' v' rest hlt hne ih =>
      rw [find?, find?, ih]
      split_ifs <;> simp_all
  exact hplace t.entries

@[simp] lemma get?_insert_self (t : Table α) (k : Nat) (v : α) : (t.insert k v).get? k = some v := by
  rw [get?_insert, if_pos rfl]

lemma get?_insert_of_ne (t : Table α) (v : α) (h : k ≠ key) :
    (t.insert key v).get? k = t.get? k := by
  rw [get?_insert, if_neg h]

/-- Filtering keeps or drops what is found at a key, according to that key alone. -/
lemma get?_filter (t : Table α) (keep : Nat → α → Bool) (k : Nat) :
    (t.filter keep).get? k = (t.get? k).filter (keep k) := by
  apply Option.ext
  intro v
  rw [← mem_entries_iff, Option.filter_eq_some_iff, ← mem_entries_iff, filter, List.mem_filter]

/-- What is found in a filtered table was there before. -/
lemma get?_of_get?_filter {keep : Nat → α → Bool} (h : (t.filter keep).get? k = some v) :
    t.get? k = some v := by
  rw [get?_filter] at h
  exact (Option.filter_eq_some_iff.1 h).1

/-- After a removal nothing is found at the key, and nothing else has changed. -/
lemma get?_erase (t : Table α) (key k : Nat) :
    (t.erase key).get? k = if k = key then none else t.get? k := by
  rw [erase, get?_filter]
  split_ifs with h
  · subst h
    cases t.get? k <;> simp
  · cases t.get? k <;> simp [h]

@[simp] lemma get?_erase_self (t : Table α) (k : Nat) : (t.erase k).get? k = none := by
  rw [get?_erase, if_pos rfl]

lemma get?_erase_of_ne (t : Table α) (h : k ≠ key) : (t.erase key).get? k = t.get? k := by
  rw [get?_erase, if_neg h]

/-- What is found in a mapped table is what was found before, mapped. -/
lemma get?_map (t : Table α) (f : α → β) (k : Nat) : (t.map f).get? k = (t.get? k).map f := by
  have hfind : ∀ l : List (Nat × α),
      find? k (l.map fun e => (e.1, f e.2)) = (find? k l).map f := by
    intro l
    induction l with
    | nil => rfl
    | cons e l ih =>
      rw [List.map_cons, find?, find?, ih]
      split <;> rfl
  exact hfind t.entries

/-- Adjusting an entry maps what is found at its key; a key without an entry gets none. -/
lemma get?_adjust (t : Table α) (key : Nat) (f : α → α) (k : Nat) :
    (t.adjust key f).get? k = if k = key then (t.get? k).map f else t.get? k := by
  have hfind : ∀ l : List (Nat × α),
      find? k (l.map fun e => if e.1 = key then (e.1, f e.2) else e) =
        if k = key then (find? k l).map f else find? k l := by
    intro l
    induction l with
    | nil => simp [find?]
    | cons e l ih =>
      obtain ⟨k', v⟩ := e
      by_cases hk : k' = k
      · subst hk
        by_cases hkey : k' = key <;> simp [find?, hkey]
      · have hskip : ∀ w, find? k ((k', w) :: l) = find? k l := fun w => by rw [find?, if_neg hk]
        rw [List.map_cons, hskip, ← ih]
        split_ifs <;> rw [find?, if_neg hk]
  exact hfind t.entries

/-! ## A new last entry -/

/-- A key above all others is placed at the end. -/
lemma place_of_lt {l : List (Nat × α)} (h : ∀ e ∈ l, e.1 < key) :
    place key value l = l ++ [(key, value)] := by
  induction l with
  | nil => rfl
  | cons e l ih =>
    obtain ⟨k', v'⟩ := e
    have hlt : k' < key := h (k', v') (by simp)
    rw [place, if_neg (Nat.not_lt.2 (Nat.le_of_lt hlt)), if_neg (Nat.ne_of_gt hlt),
      ih fun e he => h e (List.mem_cons_of_mem _ he), List.cons_append]

/-- All keys of the table are below a number. -/
def Below (t : Table α) (n : Nat) : Prop :=
  ∀ k v, t.get? k = some v → k < n

lemma entries_insert_of_below (h : t.Below key) :
    (t.insert key value).entries = t.entries ++ [(key, value)] :=
  place_of_lt fun e he => h e.1 e.2 (mem_entries_iff.1 he)

lemma Below.get?_eq_none (h : t.Below key) : t.get? key = none := by
  cases hg : t.get? key with
  | none => rfl
  | some v => exact absurd (h key v hg) (Nat.lt_irrefl _)

lemma Below.mono {m n : Nat} (h : t.Below m) (hmn : m ≤ n) : t.Below n :=
  fun k v hk => Nat.lt_of_lt_of_le (h k v hk) hmn

lemma Below.insert {n : Nat} (h : t.Below n) (hk : key < n) : (t.insert key value).Below n := by
  intro k v hget
  rw [get?_insert] at hget
  split_ifs at hget with heq
  · omega
  · exact h k v hget

lemma Below.filter {n : Nat} (h : t.Below n) (keep : Nat → α → Bool) : (t.filter keep).Below n := by
  intro k v hget
  rw [get?_filter, Option.filter_eq_some_iff] at hget
  exact h k v hget.1

lemma Below.map {n : Nat} (h : t.Below n) (f : α → β) : (t.map f).Below n := by
  intro k v hget
  rw [get?_map, Option.map_eq_some_iff] at hget
  obtain ⟨w, hw, _⟩ := hget
  exact h k w hw

lemma Below.adjust {n : Nat} (h : t.Below n) (f : α → α) : (t.adjust key f).Below n := by
  intro k v hget
  rw [get?_adjust] at hget
  split_ifs at hget
  · obtain ⟨w, hw, _⟩ := Option.map_eq_some_iff.1 hget
    exact h k w hw
  · exact h k v hget

/-! ## Tables with the same entries -/

lemma ext_entries (h : t.entries = u.entries) : t = u := by
  cases t
  cases u
  congr

/-- A table is determined by what is found in it. -/
lemma ext_get? (h : ∀ k, t.get? k = u.get? k) : t = u := by
  have hnodup : ∀ v : Table α, v.entries.Nodup :=
    fun v => v.ascending.imp fun hlt heq => absurd hlt (by rw [heq]; exact Nat.lt_irrefl _)
  have hperm : t.entries.Perm u.entries := by
    refine (List.perm_ext_iff_of_nodup (hnodup t) (hnodup u)).2 fun e => ?_
    rw [mem_entries_iff, mem_entries_iff, h]
  refine ext_entries (hperm.eq_of_pairwise (fun a b _ _ hab hba => ?_) t.ascending u.ascending)
  exact absurd hab (Nat.lt_asymm hba)

/-- The keys are those of a list, if nothing is found elsewhere. -/
lemma perm_keys {keys : List Nat} (hkeys : keys.Nodup)
    (h : ∀ k, (∃ v, t.get? k = some v) ↔ k ∈ keys) : t.keys.Perm keys := by
  rw [List.perm_ext_iff_of_nodup t.nodup_keys hkeys]
  exact fun k => mem_keys_iff.trans (h k)

/-- Tables with the same keys list them in the same way. -/
lemma keys_congr (h : ∀ k, (∃ v, t.get? k = some v) ↔ ∃ v, u.get? k = some v) :
    t.keys = u.keys := by
  have hperm := perm_keys u.nodup_keys fun k => (h k).trans mem_keys_iff.symm
  exact hperm.eq_of_pairwise (fun _ _ _ _ hlt hgt => absurd hlt (Nat.lt_asymm hgt)) t.pairwise_keys
    u.pairwise_keys

/-- Entries that come to nothing may be left out. -/
lemma filterMap_values_filter {keep : Nat → α → Bool} {g : α → Option β}
    (h : ∀ k v, t.get? k = some v → keep k v = false → g v = none) :
    (t.filter keep).values.filterMap g = t.values.filterMap g := by
  show ((t.entries.filter fun e => keep e.1 e.2).map Prod.snd).filterMap g =
    (t.entries.map Prod.snd).filterMap g
  rw [List.filterMap_map, List.filterMap_map, List.filterMap_filter]
  refine List.filterMap_congr fun e he => ?_
  cases hkeep : keep e.1 e.2 with
  | true => rfl
  | false => exact (h e.1 e.2 (mem_entries_iff.1 he) hkeep).symm

/-- Looking up some of the numbers of a table accounts for the values under them. -/
lemma perm_values {keys : List Nat} {l : List α} (hnodup : keys.Nodup)
    (h : keys.map t.get? = l.map some) :
    t.values.Perm ((t.filter fun k _ => decide (k ∉ keys)).values ++ l) := by
  have hinjective : Function.Injective (some : α → Option α) := fun _ _ => Option.some.inj
  have hmem : ∀ k ∈ keys, ∃ v, t.get? k = some v := by
    intro k hk
    have hfound : t.get? k ∈ keys.map t.get? := List.mem_map_of_mem hk
    rw [h] at hfound
    obtain ⟨v, -, hv⟩ := List.mem_map.1 hfound
    exact ⟨v, hv.symm⟩
  have hkeys : t.keys.Perm ((t.filter fun k _ => decide (k ∉ keys)).keys ++ keys) := by
    have hdisjoint : (t.filter fun k _ => decide (k ∉ keys)).keys.Disjoint keys := by
      intro k hk hk'
      obtain ⟨v, hv⟩ := mem_keys_iff.1 hk
      rw [get?_filter] at hv
      simp [hk'] at hv
    rw [List.perm_ext_iff_of_nodup t.nodup_keys
      (List.nodup_append'.2 ⟨nodup_keys _, hnodup, hdisjoint⟩)]
    intro k
    rw [List.mem_append, mem_keys_iff, mem_keys_iff, get?_filter]
    by_cases hk : k ∈ keys
    · simp [hk, hmem k hk]
    · simp [hk, Option.filter_eq_some_iff]
  have hrest : (t.filter fun k _ => decide (k ∉ keys)).values.map some =
      (t.filter fun k _ => decide (k ∉ keys)).keys.map t.get? := by
    rw [map_some_values]
    refine List.map_congr_left fun k hk => ?_
    obtain ⟨v, hv⟩ := mem_keys_iff.1 hk
    rw [hv]
    rw [get?_filter, Option.filter_eq_some_iff] at hv
    exact hv.1.symm
  rw [← List.map_perm_map_iff hinjective, List.map_append, Table.map_some_values, hrest, ← h,
    ← List.map_append]
  exact hkeys.map _

/-! ## Sizes -/

/-- Placing a value at a key that is there replaces one entry by another. -/
lemma length_place {l : List (Nat × α)} (hl : l.Pairwise (·.1 < ·.1))
    (h : find? key l = some v) : (place key value l).length = l.length := by
  induction l with
  | nil => simp [find?] at h
  | cons e l ih =>
    obtain ⟨k, w⟩ := e
    obtain ⟨hk, hl⟩ := List.pairwise_cons.1 hl
    rw [find?] at h
    by_cases heq : k = key
    · rw [place, if_neg (by omega), if_pos heq.symm]
      rfl
    · rw [if_neg heq] at h
      -- the key is in a later entry, so it is not below the first one
      have hlt : k < key := hk _ (mem_of_find? h)
      rw [place, if_neg (by omega), if_neg (by omega), List.length_cons, List.length_cons, ih hl h]

/-- A new value at a key that is there makes the table no larger. -/
lemma size_insert (h : t.get? key = some v) : (t.insert key value).size = t.size :=
  length_place t.ascending h

/-- Placing a value at a new key adds one entry. -/
lemma length_place_of_none {l : List (Nat × α)} (h : find? key l = none) :
    (place key value l).length = l.length + 1 := by
  induction l with
  | nil => rfl
  | cons e l ih =>
    obtain ⟨k, w⟩ := e
    rw [find?] at h
    split_ifs at h with hk
    rw [place]
    split_ifs with hlt heq
    · rfl
    · exact absurd heq.symm hk
    · rw [List.length_cons, List.length_cons, ih h]

/-- A value at a new key makes the table larger by one. -/
lemma size_insert_of_none (h : t.get? key = none) : (t.insert key value).size = t.size + 1 :=
  length_place_of_none h

/-- A table with values at the keys of a list, and nowhere else, is as large as the list. -/
lemma size_eq_length {keys : List Nat} (hkeys : keys.Nodup)
    (h : ∀ k, (∃ v, t.get? k = some v) ↔ k ∈ keys) : t.size = keys.length := by
  rw [← (perm_keys hkeys h).length_eq, Table.keys, List.length_map, size]

/-- Tables with the same keys are of one size. -/
lemma size_congr (h : ∀ k, (∃ v, t.get? k = some v) ↔ ∃ v, u.get? k = some v) :
    t.size = u.size := by
  have hlength := congrArg List.length (keys_congr h)
  simpa only [size, keys, List.length_map] using hlength

/-- Removing an entry makes the table smaller. -/
lemma size_erase_lt (h : t.get? k = some v) : (t.erase k).size < t.size := by
  rw [size, size, erase, filter]
  refine List.length_filter_lt_length_iff_exists.2 ⟨(k, v), mem_entries_iff.2 h, ?_⟩
  simp

end TemplateFolding.Table
