import Mathlib.Data.List.Basic
import Mathlib.Data.List.Induction
import TemplateFolding.Proofs.TrackedFoldings

/-!
# What the row index remembers of its calls

The row index keeps one relation twice: the row of each folding, and the set of foldings of each
row. A call that changes only one of the two leaves an entry behind that shows up much later, as
highlighting on a row that the folding has left. Main statement: whatever has been called, the two
tables are the same relation, a row without foldings has no set, and the relation is the one that
the calls spell out. A folding is on the row of its last insertion, unless it has been removed or
the index has been cleared since.
-/

namespace TemplateFolding

/-- What is done to a row index. -/
inductive IndexCall where
  | insert (id : FoldingId) (row : Nat)
  | remove (id : FoldingId)
  | clear
deriving DecidableEq

namespace IndexCall

/-- What a call makes of an index. -/
def run (ix : RowIndex) : IndexCall → RowIndex
  | insert id row => ix.insert id row
  | remove id => ix.remove id
  | clear => ix.clear

/-- A call inserts or removes a folding, or it takes all of them out. -/
def Concerns (id : FoldingId) : IndexCall → Prop
  | insert other _ => other = id
  | remove other => other = id
  | clear => True

end IndexCall

namespace RowIndex

/-- What calls make of the empty index. -/
def after (calls : List IndexCall) : RowIndex :=
  calls.foldl IndexCall.run empty

/-- A row is where a folding was inserted last, and no later call concerns the folding. -/
def LastInserted (calls : List IndexCall) (id : FoldingId) (row : Nat) : Prop :=
  ∃ earlier later, calls = earlier ++ .insert id row :: later ∧ ∀ call ∈ later, ¬call.Concerns id

/-- No set that is kept for a row is empty. -/
def Occupied (ix : RowIndex) : Prop :=
  ∀ row ids, ix.rows.get? row = some ids → ids.keys ≠ []

variable {ix : RowIndex} {calls : List IndexCall} {call : IndexCall} {id : FoldingId} {row : Nat}

/-! ## Rows without foldings -/

lemma occupied_empty : empty.Occupied := by
  intro row ids hids
  simp [empty] at hids

/-- Removing a folding removes a row that becomes empty. -/
lemma Occupied.remove (h : ix.Occupied) (id : FoldingId) : (ix.remove id).Occupied := by
  cases hrow : ix.rowOf.get? id with
  | none => rwa [remove_of_none hrow]
  | some row =>
    intro r ids hids
    rw [get?_rows_remove hrow] at hids
    split_ifs at hids
    · obtain ⟨-, hkept⟩ := Option.filter_eq_some_iff.1 hids
      simpa [Table.keys] using hkept
    · exact h r ids hids

/-- Inserting a folding fills the row that it makes. -/
lemma Occupied.insert (h : ix.Occupied) (id : FoldingId) (row : Nat) :
    (ix.insert id row).Occupied := by
  intro r ids hids
  rw [RowIndex.insert, Table.get?_insert] at hids
  split_ifs at hids
  · obtain rfl := Option.some.inj hids
    exact List.ne_nil_of_mem (Table.mem_keys_iff.2 ⟨(), Table.get?_insert_self _ id ()⟩)
  · exact h.remove id r ids hids

/-! ## One call -/

/-- No call leaves an empty row behind. -/
lemma Occupied.run (h : ix.Occupied) (call : IndexCall) : (call.run ix).Occupied := by
  cases call with
  | insert id row => exact h.insert id row
  | remove id => exact h.remove id
  | clear => exact occupied_empty

/-- Every call leaves rows and foldings in agreement. -/
lemma Consistent.run (h : ix.Consistent) (call : IndexCall) : (call.run ix).Consistent := by
  cases call with
  | insert id row => exact h.insert id row
  | remove id => exact h.remove id
  | clear => exact consistent_empty

/-- A call puts a folding on a row, or leaves it there if it does not concern it. -/
lemma get?_rowOf_run : (call.run ix).rowOf.get? id = some row ↔
    call = .insert id row ∨ ¬call.Concerns id ∧ ix.rowOf.get? id = some row := by
  cases call with
  | insert other r =>
    rw [IndexCall.run, get?_rowOf_insert]
    by_cases hid : id = other
    · simp [IndexCall.Concerns, hid]
    · simp [IndexCall.Concerns, hid, Ne.symm hid]
  | remove other =>
    rw [IndexCall.run, get?_rowOf_remove]
    by_cases hid : id = other
    · simp [IndexCall.Concerns, hid]
    · simp [IndexCall.Concerns, hid, Ne.symm hid]
  | clear => simp [IndexCall.run, IndexCall.Concerns, clear, empty]

/-- The last insertion changes with a call as the row of a folding does. -/
lemma lastInserted_concat : LastInserted (calls ++ [call]) id row ↔
    call = .insert id row ∨ ¬call.Concerns id ∧ LastInserted calls id row := by
  constructor
  · rintro ⟨earlier, later, hcalls, hlater⟩
    -- the insertion is the last call, or the last call comes later and does not concern the folding
    rcases List.eq_nil_or_concat' later with rfl | ⟨later, last, rfl⟩
    · exact Or.inl (List.singleton_inj.1 (List.append_inj_right' hcalls rfl))
    · rw [← List.cons_append, ← List.append_assoc] at hcalls
      obtain ⟨hbefore, hlast⟩ := List.append_inj' hcalls rfl
      obtain rfl := List.singleton_inj.1 hlast
      exact Or.inr ⟨hlater call (by simp), earlier, later, hbefore,
        fun c hc => hlater c (List.mem_append_left _ hc)⟩
  · rintro (rfl | ⟨hcall, earlier, later, rfl, hlater⟩)
    · exact ⟨calls, [], rfl, by simp⟩
    · refine ⟨earlier, later ++ [call], by simp, fun c hc => ?_⟩
      rcases List.mem_append.1 hc with hc | hc
      · exact hlater c hc
      · rwa [List.mem_singleton.1 hc]

/-! ## Any sequence of calls -/

lemma after_concat (calls : List IndexCall) (call : IndexCall) :
    after (calls ++ [call]) = call.run (after calls) := by
  rw [after, List.foldl_append]
  rfl

lemma occupied_after (calls : List IndexCall) : (after calls).Occupied :=
  List.foldlRecOn calls IndexCall.run occupied_empty fun _ h call _ => h.run call

lemma consistent_after (calls : List IndexCall) : (after calls).Consistent :=
  List.foldlRecOn calls IndexCall.run consistent_empty fun _ h call _ => h.run call

/-- A folding is on the row that it was last inserted on, if it has not been removed since. -/
lemma get?_rowOf_after (calls : List IndexCall) (id : FoldingId) (row : Nat) :
    (after calls).rowOf.get? id = some row ↔ LastInserted calls id row := by
  induction calls using List.reverseRecOn with
  | nil => simp [after, empty, LastInserted]
  | append_singleton calls call ih =>
    rw [after_concat, get?_rowOf_run, ih, lastInserted_concat]

/-- After any calls on the empty index, a folding is in the set of a row exactly if the row is its
own, no set is empty, a row lists the foldings of its set in ascending order and each of them once,
and the row of a folding is the one where it was inserted last, if it was not taken out later. -/
theorem after_represents (calls : List IndexCall) :
    (∀ id row, (∃ ids, (after calls).rows.get? row = some ids ∧ id ∈ ids.keys) ↔
        (after calls).rowOf.get? id = some row) ∧
      (∀ row ids, (after calls).rows.get? row = some ids → ids.keys ≠ []) ∧
      (∀ row, ((after calls).onRow row).Pairwise (· < ·) ∧ ∀ id, id ∈ (after calls).onRow row ↔
        ∃ ids, (after calls).rows.get? row = some ids ∧ id ∈ ids.keys) ∧
      ∀ id row, (after calls).rowOf.get? id = some row ↔ LastInserted calls id row := by
  have hset : ∀ id row, id ∈ (after calls).onRow row ↔
      ∃ ids, (after calls).rows.get? row = some ids ∧ id ∈ ids.keys := by
    intro id row
    simp only [mem_onRow, Table.mem_keys_iff]
  refine ⟨fun id row => ?_, occupied_after calls, fun row => ⟨?_, fun id => hset id row⟩,
    get?_rowOf_after calls⟩
  · rw [← hset]
    exact consistent_after calls id row
  · exact Table.pairwise_keys _

/-- A folding moves to another row, another is removed twice, and the row of the two has no set. -/
example :
    let ix := after [.insert 1 2, .insert 2 2, .insert 1 7, .remove 2, .remove 2]
    ix.rows.keys = [7] ∧ ix.onRow 7 = [1] ∧ ix.onRow 2 = [] := by
  decide

end RowIndex

end TemplateFolding
