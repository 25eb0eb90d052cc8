import Mathlib.Data.List.Induction
import Mathlib.Data.List.Infix
import TemplateFolding.Folding.Highlight
import TemplateFolding.Proofs.Tables

/-!
# Suspensions that overlap

A suspension keeps highlighting off until it is ended, and its end restores what it found when it
began. Several may be held at once, and they may be ended in any order. Highlighting is then on
exactly while none is held under one condition, which is also necessary: a suspension that was begun
while none was held is ended after all that overlap it. Where it is ended earlier, highlighting
comes back while another is held, and the end of that one turns it off for good.
-/

namespace TemplateFolding

/-- What is done with suspensions: one is begun, or the one with a number is ended. -/
inductive SuspensionCall where
  | suspend
  | resume (number : Nat)
deriving DecidableEq

/-- A highlighter with the suspensions that are held, numbered in the order in which they began. -/
structure Suspensions where
  highlighter : Highlighter
  held : Table Suspension := .empty
  next : Nat := 0

/-- What a call makes of them. Ending a suspension that is not held does nothing. -/
def SuspensionCall.run (s : Suspensions) : SuspensionCall → Suspensions
  | suspend =>
    let (suspension, highlighter) := s.highlighter.suspend
    { highlighter, held := s.held.insert s.next suspension, next := s.next + 1 }
  | resume number =>
    match s.held.get? number with
    | none => s
    | some suspension =>
      { s with highlighter := s.highlighter.resume suspension, held := s.held.erase number }

namespace Suspensions

/-- What calls lead to from a highlighter that is on. -/
def after (index : RowIndex) (calls : List SuspensionCall) : Suspensions :=
  calls.foldl SuspensionCall.run { highlighter := { index } }

/-- Highlighting is on exactly if no suspension is held. -/
def Composed (s : Suspensions) : Prop :=
  s.highlighter.enabled = true ↔ s.held.keys = []

/-- The suspension with a number was begun while none was held. -/
def Outermost (index : RowIndex) (calls : List SuspensionCall) (number : Nat) : Prop :=
  ∃ earlier later, calls = earlier ++ .suspend :: later ∧ (after index earlier).next = number ∧
    (after index earlier).held.keys = []

variable {index : RowIndex} {calls earlier later earlier' later' : List SuspensionCall}
  {call : SuspensionCall} {number : Nat} {suspension : Suspension}

lemma after_concat (index : RowIndex) (calls : List SuspensionCall) (call : SuspensionCall) :
    after index (calls ++ [call]) = call.run (after index calls) := by
  rw [after, List.foldl_append]
  rfl

/-! ## Numbers -/

/-- No number of a suspension is given out twice. -/
lemma next_le_run (s : Suspensions) (call : SuspensionCall) : s.next ≤ (call.run s).next := by
  cases call with
  | suspend => exact Nat.le_succ _
  | resume number =>
    unfold SuspensionCall.run
    dsimp only
    split <;> exact Nat.le_refl _

lemma next_le_after (index : RowIndex) (calls more : List SuspensionCall) :
    (after index calls).next ≤ (after index (calls ++ more)).next := by
  induction more using List.reverseRecOn with
  | nil => exact Nat.le_of_eq (by rw [List.append_nil])
  | append_singleton more call ih =>
    rw [← List.append_assoc, after_concat]
    exact Nat.le_trans ih (next_le_run _ _)

/-- No number is used twice. -/
lemma next_lt_after (index : RowIndex) (earlier later : List SuspensionCall) :
    (after index earlier).next < (after index (earlier ++ .suspend :: later)).next := by
  have hbegun := next_le_after index (earlier ++ [.suspend]) later
  rw [after_concat, List.append_assoc, List.singleton_append] at hbegun
  exact hbegun

/-- A number says when its suspension was begun. -/
lemma begun_unique (h : earlier ++ .suspend :: later = earlier' ++ .suspend :: later')
    (hnext : (after index earlier).next = (after index earlier').next) : earlier = earlier' := by
  -- if one began before the other, the number was used up by then
  rcases List.append_eq_append_iff.1 h with
    ⟨between, hearlier, hlater⟩ | ⟨between, hearlier, hlater⟩
  · cases between with
    | nil => rw [hearlier, List.append_nil]
    | cons call between =>
      obtain ⟨rfl, -⟩ := List.cons.inj hlater
      have hlt := next_lt_after index earlier between
      rw [← hearlier] at hlt
      omega
  · cases between with
    | nil => rw [hearlier, List.append_nil]
    | cons call between =>
      obtain ⟨rfl, -⟩ := List.cons.inj hlater
      have hlt := next_lt_after index earlier' between
      rw [← hearlier] at hlt
      omega

/-! ## What a suspension remembers -/

/-- A suspension that is held remembers whether highlighting was on when it was begun. -/
lemma begun_of_held (h : (after index calls).held.get? number = some suspension) :
    ∃ earlier later, calls = earlier ++ .suspend :: later ∧ (after index earlier).next = number ∧
      suspension.wasEnabled = (after index earlier).highlighter.enabled := by
  induction calls using List.reverseRecOn with
  | nil => exact absurd h (by simp [after])
  | append_singleton calls call ih =>
    have hextend : (after index calls).held.get? number = some suspension →
        ∃ earlier later, calls ++ [call] = earlier ++ .suspend :: later ∧
          (after index earlier).next = number ∧
          suspension.wasEnabled = (after index earlier).highlighter.enabled := by
      intro hheld
      obtain ⟨earlier, later, hcalls, hbegun⟩ := ih hheld
      refine ⟨earlier, later ++ [call], ?_, hbegun⟩
      rw [hcalls, List.append_assoc, List.cons_append]
    rw [after_concat] at h
    cases call with
    | suspend =>
      simp only [SuspensionCall.run, Highlighter.suspend, Table.get?_insert] at h
      split_ifs at h with hnumber
      · exact ⟨calls, [], rfl, hnumber.symm, by rw [← Option.some.inj h]⟩
      · exact hextend h
    | resume ended =>
      unfold SuspensionCall.run at h
      dsimp only at h
      split at h
      · exact hextend h
      · dsimp only at h
        rw [Table.get?_erase] at h
        split_ifs at h
        exact hextend h

/-- As long as highlighting has been on exactly while nothing was held, what a suspension remembers
says whether it is outermost. -/
lemma wasEnabled_iff (hcomposed : ∀ before, before <+: calls → (after index before).Composed)
    (h : (after index calls).held.get? number = some suspension) :
    suspension.wasEnabled = true ↔ Outermost index calls number := by
  obtain ⟨earlier, later, hcalls, hnumber, hwas⟩ := begun_of_held h
  have hearlier : (after index earlier).highlighter.enabled = true ↔
      (after index earlier).held.keys = [] := hcomposed earlier ⟨_, hcalls.symm⟩
  rw [hwas, hearlier]
  constructor
  · exact fun hnone => ⟨earlier, later, hcalls, hnumber, hnone⟩
  · rintro ⟨earlier', later', hcalls', hnumber', hnone⟩
    rwa [begun_unique (hcalls.symm.trans hcalls') (hnumber.trans hnumber'.symm)]

/-- No later call changes that a suspension was begun while none was held. -/
lemma Outermost.concat (h : Outermost index calls number) (call : SuspensionCall) :
    Outermost index (calls ++ [call]) number := by
  obtain ⟨earlier, later, hcalls, hbegun⟩ := h
  refine ⟨earlier, later ++ [call], ?_, hbegun⟩
  rw [hcalls, List.append_assoc, List.cons_append]

/-! ## Ending the outermost suspension last -/

/-- Whenever an outermost suspension is ended, no other is held. -/
def OutermostLast (index : RowIndex) (calls : List SuspensionCall) : Prop :=
  ∀ before number, before ++ [.resume number] <+: calls →
    number ∈ (after index before).held.keys → Outermost index before number →
      ∀ other ∈ (after index before).held.keys, other = number

/-- Highlighting has been on exactly while nothing was held, and now an outermost suspension is held
or none. -/
structure InScope (index : RowIndex) (calls : List SuspensionCall) : Prop where
  composed : ∀ before, before <+: calls → (after index before).Composed
  outermost : (after index calls).held.keys ≠ [] →
    ∃ number ∈ (after index calls).held.keys, Outermost index calls number

namespace InScope

lemma nil (index : RowIndex) : InScope index [] where
  composed := by
    intro before hbefore
    rw [List.prefix_nil.1 hbefore]
    exact ⟨fun _ => rfl, fun _ => rfl⟩
  outermost := fun hheld => absurd rfl hheld

lemma of_concat (h : InScope index calls) (hcomposed : (after index (calls ++ [call])).Composed)
    (houtermost : (after index (calls ++ [call])).held.keys ≠ [] →
      ∃ number ∈ (after index (calls ++ [call])).held.keys, Outermost index calls number ∨
        Outermost index (calls ++ [call]) number) : InScope index (calls ++ [call]) where
  composed := by
    intro before hbefore
    rcases List.prefix_concat_iff.1 hbefore with rfl | hbefore
    · exact hcomposed
    · exact h.composed before hbefore
  outermost := by
    intro hheld
    obtain ⟨number, hnumber, houter | houter⟩ := houtermost hheld
    · exact ⟨number, hnumber, houter.concat call⟩
    · exact ⟨number, hnumber, houter⟩

/-- A suspension inside another leaves that one outermost, and one that is alone is outermost
itself. -/
lemma suspend (h : InScope index calls) : InScope index (calls ++ [.suspend]) := by
  have hnew : (after index calls).next ∈ (after index (calls ++ [.suspend])).held.keys := by
    rw [after_concat, Table.mem_keys_iff]
    exact ⟨_, Table.get?_insert_self _ _ _⟩
  refine h.of_concat ?_ fun _ => ?_
  · rw [Composed, after_concat]
    refine ⟨fun hon => absurd hon (by simp [SuspensionCall.run, Highlighter.suspend]), ?_⟩
    intro hnone
    rw [after_concat, hnone] at hnew
    exact absurd hnew (by simp)
  · by_cases hnone : (after index calls).held.keys = []
    · exact ⟨_, hnew, Or.inr ⟨calls, [], rfl, rfl, hnone⟩⟩
    · obtain ⟨number, hnumber, houter⟩ := h.outermost hnone
      refine ⟨number, ?_, Or.inl houter⟩
      obtain ⟨suspension, hget⟩ := Table.mem_keys_iff.1 hnumber
      rw [after_concat, Table.mem_keys_iff]
      simp only [SuspensionCall.run, Table.get?_insert]
      split_ifs
      · exact ⟨_, rfl⟩
      · exact ⟨_, hget⟩

/-- Ending a suspension keeps the scopes, if an outermost one is ended while no other is held. -/
lemma resume (h : InScope index calls)
    (hlast : number ∈ (after index calls).held.keys → Outermost index calls number →
      ∀ other ∈ (after index calls).held.keys, other = number) :
    InScope index (calls ++ [.resume number]) := by
  cases hget : (after index calls).held.get? number with
  | none =>
    have hsame : after index (calls ++ [.resume number]) = after index calls := by
      rw [after_concat]
      simp only [SuspensionCall.run, hget]
    refine h.of_concat ?_ ?_
    · rw [hsame]
      exact h.composed calls List.prefix_rfl
    · rw [hsame]
      intro hheld
      obtain ⟨other, hother, houter⟩ := h.outermost hheld
      exact ⟨other, hother, Or.inl houter⟩
  | some suspension =>
    have hended : after index (calls ++ [.resume number]) =
        { after index calls with
          highlighter := (after index calls).highlighter.resume suspension
          held := (after index calls).held.erase number } := by
      rw [after_concat]
      simp only [SuspensionCall.run, hget]
    have hmem : number ∈ (after index calls).held.keys := Table.mem_keys_iff.2 ⟨_, hget⟩
    have hleft : ∀ other, other ∈ ((after index calls).held.erase number).keys ↔
        other ≠ number ∧ other ∈ (after index calls).held.keys := by
      intro other
      rw [Table.mem_keys_iff, Table.mem_keys_iff, Table.get?_erase]
      split_ifs with heq <;> simp [heq]
    have hwas := wasEnabled_iff h.composed hget
    -- what is restored is what an outermost suspension found, and then nothing else is held
    by_cases houter : Outermost index calls number
    · have hnone : ((after index calls).held.erase number).keys = [] := by
        rw [List.eq_nil_iff_forall_not_mem]
        intro other hother
        obtain ⟨hne, hheld⟩ := (hleft other).1 hother
        exact hne (hlast hmem houter other hheld)
      refine h.of_concat ?_ ?_
      · rw [Composed, hended]
        exact ⟨fun _ => hnone, fun _ => hwas.2 houter⟩
      · rw [hended]
        exact fun hheld => absurd hnone hheld
    · obtain ⟨other, hother, houter'⟩ := h.outermost (List.ne_nil_of_mem hmem)
      have hne : other ≠ number := by
        rintro rfl
        exact houter houter'
      have hheld := (hleft other).2 ⟨hne, hother⟩
      refine h.of_concat ?_ ?_
      · rw [Composed, hended]
        exact ⟨fun hon => absurd (hwas.1 hon) houter,
          fun hnone => absurd hnone (List.ne_nil_of_mem hheld)⟩
      · rw [hended]
        exact fun _ => ⟨other, hheld, Or.inl houter'⟩

end InScope

/-- Where the outermost suspension is ended last, every state is in scope. -/
lemma OutermostLast.inScope (h : OutermostLast index calls) : InScope index calls := by
  induction calls using List.reverseRecOn with
  | nil => exact InScope.nil index
  | append_singleton calls call ih =>
    have hscope := ih fun before number hbefore =>
      h before number (hbefore.trans (List.prefix_append _ _))
    cases call with
    | suspend => exact hscope.suspend
    | resume number => exact hscope.resume (h calls number List.prefix_rfl)

/-- Highlighting is on exactly while no suspension is held, after each of a sequence of calls, if
and only if whenever a suspension is ended that was begun while none was held, no other is held. -/
theorem composed_iff_outermostLast (index : RowIndex) (calls : List SuspensionCall) :
    (∀ before, before <+: calls → (after index before).Composed) ↔ OutermostLast index calls := by
  refine ⟨fun hcomposed before number hbefore hmem houter other hother => ?_,
    fun hlast => hlast.inScope.composed⟩
  obtain ⟨suspension, hget⟩ := Table.mem_keys_iff.1 hmem
  have hwas : suspension.wasEnabled = true := by
    refine (wasEnabled_iff (fun earlier hearlier => ?_) hget).2 houter
    exact hcomposed earlier (hearlier.trans ((List.prefix_append _ _).trans hbefore))
  -- highlighting is restored, so nothing is held any more
  have hnone := hcomposed _ hbefore
  rw [Composed, after_concat] at hnone
  simp only [SuspensionCall.run, hget, Highlighter.resume] at hnone
  by_contra hne
  obtain ⟨suspension', hget'⟩ := Table.mem_keys_iff.1 hother
  have hleft := Table.keys_eq_nil_iff.1 (hnone.1 hwas) other
  rw [Table.get?_erase_of_ne _ hne, hget'] at hleft
  exact absurd hleft (by simp)

/-- Two suspensions within a first one end in the order in which they began, and a fourth stands
alone. -/
theorem composed_iff_outermostLast_nested :
    OutermostLast .empty [.suspend, .suspend, .suspend, .resume 1, .resume 2, .resume 0, .suspend,
      .resume 3] := by
  refine (composed_iff_outermostLast .empty _).1 fun before hbefore => ?_
  have hall : ∀ b ∈ List.inits [SuspensionCall.suspend, .suspend, .suspend, .resume 1, .resume 2,
      .resume 0, .suspend, .resume 3], (after .empty b).Composed := by
    unfold Composed
    decide
  exact hall before ((List.mem_inits _ _).2 hbefore)

/-- Of two suspensions the first is ended first: highlighting is on while the second is held, and
off when both have ended. -/
theorem not_composed_crossed :
    ¬(after .empty [.suspend, .suspend, .resume 0]).Composed ∧
      ¬(after .empty [.suspend, .suspend, .resume 0, .resume 1]).Composed := by
  unfold Composed
  decide

end Suspensions

end TemplateFolding
