import TemplateFolding.Proofs.CompleteSearch
import TemplateFolding.Text.Bytes

/-!
# Byte positions between characters

A byte position can be sliced at exactly if it is the size of a front part of the text. A slice is
then the text between two such parts.
-/

namespace TemplateFolding.Text

variable {t u v part : Text} {n start stop : Nat}

/-- A text is encoded in as many bytes as it has. -/
lemma length_utf8 (t : Text) : t.utf8.length = t.byteLength := by
  induction t with
  | nil => rfl
  | cons c cs ih =>
    rw [utf8, List.flatMap_cons, List.length_append, String.length_utf8EncodeChar, byteLength_cons]
    exact congrArg (c.utf8Size + ·) ih

/-- Texts are encoded one after the other. -/
lemma utf8_append (t u : Text) : (t ++ u).utf8 = t.utf8 ++ u.utf8 :=
  List.flatMap_append

/-- Whether a byte position stands at an end of the text or between two characters. -/
def IsBoundary (t : Text) (n : Nat) : Prop :=
  ∃ u v, t = u ++ v ∧ u.byteLength = n

lemma IsBoundary.le (h : t.IsBoundary n) : n ≤ t.byteLength := by
  obtain ⟨u, v, rfl, rfl⟩ := h
  rw [byteLength_append]
  omega

/-- Cutting after a number of bytes cuts between characters, or not at all. -/
lemma splitBytes?_eq_some_iff :
    t.splitBytes? n = some (u, v) ↔ t = u ++ v ∧ u.byteLength = n := by
  fun_induction splitBytes? n t generalizing u v with
  | case1 t =>
    constructor
    · intro h
      simp only [Option.some.injEq, Prod.mk.injEq] at h
      obtain ⟨rfl, rfl⟩ := h
      exact ⟨rfl, rfl⟩
    · rintro ⟨rfl, hsize⟩
      have hnil : u = [] := by
        by_contra hne
        have hpos := byteLength_pos hne
        omega
      rw [hnil, List.nil_append]
  | case2 n =>
    simp only [reduceCtorEq, false_iff]
    rintro ⟨hsplit, hsize⟩
    rw [(List.append_eq_nil_iff.1 hsplit.symm).1] at hsize
    exact absurd hsize.symm (Nat.succ_ne_zero n)
  | case3 n c cs hle ih =>
    rw [Option.map_eq_some_iff]
    constructor
    · rintro ⟨⟨front, rest⟩, hsplit, heq⟩
      obtain ⟨rfl, rfl⟩ := Prod.mk.inj heq
      obtain ⟨rfl, hsize⟩ := ih.1 hsplit
      refine ⟨rfl, ?_⟩
      rw [byteLength_cons]
      omega
    · rintro ⟨hsplit, hsize⟩
      cases u with
      | nil => exact absurd hsize.symm (Nat.succ_ne_zero n)
      | cons d front =>
        obtain ⟨rfl, rfl⟩ := List.cons.inj hsplit
        rw [byteLength_cons] at hsize
        exact ⟨(front, v), ih.2 ⟨rfl, by omega⟩, rfl⟩
  | case4 n c cs hle =>
    simp only [reduceCtorEq, false_iff]
    rintro ⟨hsplit, hsize⟩
    cases u with
    | nil => exact absurd hsize.symm (Nat.succ_ne_zero n)
    | cons d front =>
      obtain ⟨rfl, -⟩ := List.cons.inj hsplit
      rw [byteLength_cons] at hsize
      omega

/-- A slice of bytes is a part of the text that starts and stops between characters. -/
lemma byteSlice?_eq_some_iff :
    t.byteSlice? start stop = some part ↔
      ∃ u v, t = u ++ (part ++ v) ∧ u.byteLength = start ∧ (u ++ part).byteLength = stop := by
  unfold byteSlice?
  split_ifs with hle
  · constructor
    · intro h
      obtain ⟨⟨u, rest⟩, hfront, h⟩ := Option.bind_eq_some_iff.1 h
      obtain ⟨⟨x, v⟩, hpart, h⟩ := Option.bind_eq_some_iff.1 h
      obtain rfl : x = part := Option.some.inj h
      obtain ⟨rfl, hu⟩ := splitBytes?_eq_some_iff.1 hfront
      obtain ⟨rfl, hx⟩ := splitBytes?_eq_some_iff.1 hpart
      refine ⟨u, v, rfl, hu, ?_⟩
      rw [byteLength_append]
      omega
    · rintro ⟨u, v, rfl, hu, hpart⟩
      rw [byteLength_append] at hpart
      refine Option.bind_eq_some_iff.2 ⟨(u, part ++ v), splitBytes?_eq_some_iff.2 ⟨rfl, hu⟩, ?_⟩
      exact Option.bind_eq_some_iff.2
        ⟨(part, v), splitBytes?_eq_some_iff.2 ⟨rfl, by omega⟩, rfl⟩
  · simp only [false_iff]
    rintro ⟨u, v, rfl, hu, hpart⟩
    rw [byteLength_append] at hpart
    omega

/-- The slices that are taken are those between two positions in order, both between characters. -/
theorem isSome_byteSlice?_iff :
    (t.byteSlice? start stop).isSome ↔ start ≤ stop ∧ t.IsBoundary start ∧ t.IsBoundary stop := by
  constructor
  · intro h
    obtain ⟨part, hpart⟩ := Option.isSome_iff_exists.1 h
    obtain ⟨u, v, rfl, rfl, rfl⟩ := byteSlice?_eq_some_iff.1 hpart
    refine ⟨?_, ⟨u, part ++ v, rfl, rfl⟩, ⟨u ++ part, v, (List.append_assoc _ _ _).symm, rfl⟩⟩
    rw [byteLength_append]
    omega
  · rintro ⟨hle, ⟨u, v, rfl, rfl⟩, ⟨u', v', hsplit, rfl⟩⟩
    rcases append_eq_append_cases hsplit with ⟨part, -, rfl, hv⟩ | ⟨more, rfl, hv⟩
    · rw [hv]
      exact Option.isSome_iff_exists.2 ⟨part, byteSlice?_eq_some_iff.2 ⟨u, v', rfl, rfl, rfl⟩⟩
    · -- the second cut is not before the first, so there is nothing between them
      have hnil : more = [] := by
        by_contra hne
        have hpos := byteLength_pos hne
        rw [byteLength_append] at hle
        omega
      subst hnil
      rw [List.append_nil]
      exact Option.isSome_iff_exists.2 ⟨[], byteSlice?_eq_some_iff.2 ⟨u', v, rfl, rfl, by simp⟩⟩

end TemplateFolding.Text
