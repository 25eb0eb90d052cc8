/-!
# Tables

A finite map from numbers to values, kept as entries in ascending order of their keys. The order is
part of the type, so a table is determined by what `get?` finds in it, and walking it always visits
the keys in ascending order.
-/

namespace TemplateFolding

/-- Entries in ascending order of their keys. -/
structure Table (α : Type) where
  entries : List (Nat × α)
  ascending : entries.Pairwise (·.1 < ·.1)

namespace Table

variable {α : Type}

/-- The table without entries. -/
def empty : Table α := ⟨[], .nil⟩

/-- The value of the first entry with a key. -/
def find? (key : Nat) : List (Nat × α) → Option α
  | [] => none
  | (k, v) :: rest => if k = key then some v else find? key rest

/-- The value at a key. -/
def get? (t : Table α) (key : Nat) : Option α :=
  find? key t.entries

/-- Whether the table has an entry at a key. -/
def contains (t : Table α) (key : Nat) : Bool :=
  (t.get? key).isSome

/-- Puts an entry in its place; one with the same key gives way. -/
def place (key : Nat) (value : α) : List (Nat × α) → List (Nat × α)
  | [] => [(key, value)]
  | (k, v) :: rest =>
    if key < k then (key, value) :: (k, v) :: rest
    else if key = k then (key, value) :: rest
    else (k, v) :: place key value rest

theorem mem_place {key : Nat} {value : α} {l : List (Nat × α)} {e : Nat × α}
    (h : e ∈ place key value l) : e = (key, value) ∨ e ∈ l := by
  fun_induction place key value l <;> grind

theorem pairwise_place {key : Nat} {value : α} {l : List (Nat × α)}
    (h : l.Pairwise (·.1 < ·.1)) : (place key value l).Pairwise (·.1 < ·.1) := by
  fun_induction place key value l with
  | case1 => simp
  | case2 k v rest hlt =>
    refine List.pairwise_cons.2 ⟨fun e he => ?_, h⟩
    rcases List.mem_cons.1 he with rfl | he
    · exact hlt
    · exact Nat.lt_trans hlt ((List.pairwise_cons.1 h).1 e he)
  | case3 v rest =>
    exact List.pairwise_cons.2 ⟨(List.pairwise_cons.1 h).1, (List.pairwise_cons.1 h).2⟩
  | case4 k v rest hlt hne ih =>
    refine List.pairwise_cons.2 ⟨fun e he => ?_, ih (List.pairwise_cons.1 h).2⟩
    rcases mem_place he with rfl | he
    · simp only
      omega
    · exact (List.pairwise_cons.1 h).1 e he

/-- The table with `value` at `key`. -/
def insert (t : Table α) (key : Nat) (value : α) : Table α :=
  ⟨place key value t.entries, pairwise_place t.ascending⟩

/-- The entries that satisfy a test. -/
def filter (t : Table α) (keep : Nat → α → Bool) : Table α :=
  ⟨t.entries.filter fun e => keep e.1 e.2, t.ascending.filter _⟩

/-- The table without an entry at `key`. -/
def erase (t : Table α) (key : Nat) : Table α :=
  t.filter fun k _ => k != key

/-- The table with every value replaced by its image. -/
def map {β : Type} (t : Table α) (f : α → β) : Table β :=
  ⟨t.entries.map fun e => (e.1, f e.2), List.pairwise_map.2 t.ascending⟩

/-- The table with the value at `key`, if there is one, replaced by its image. -/
def adjust (t : Table α) (key : Nat) (f : α → α) : Table α :=
  ⟨t.entries.map fun e => if e.1 = key then (e.1, f e.2) else e, by
    refine List.pairwise_map.2 (t.ascending.imp fun {a b} h => ?_)
    split <;> split <;> exact h⟩

/-- The keys in ascending order. -/
def keys (t : Table α) : List Nat :=
  t.entries.map (·.1)

/-- The values in ascending order of their keys. -/
def values (t : Table α) : List α :=
  t.entries.map (·.2)

/-- The number of entries. -/
def size (t : Table α) : Nat :=
  t.entries.length

end Table

end TemplateFolding
