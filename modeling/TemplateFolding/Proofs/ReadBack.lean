import TemplateFolding.Proofs.ByteSlices
import TemplateFolding.Proofs.FoldReports

/-!
# Declarations of a range read back

A range of a text is searched by itself: the declarations are found in the text of the range, at
bytes and points counted from its start, and their points are then counted from where the range
starts. These are positions of the whole text, inside of the range and in order, and what stands
between them is what was found.
-/

namespace TemplateFolding

open Text Point

/-- Seen from one base, points keep their order. -/
lemma Point.rebase_le_rebase (base : Point) {p q : Point} (h : p ≤ q) :
    base.rebase p ≤ base.rebase q := by
  rw [le_iff] at h
  unfold Point.rebase
  split_ifs <;> rw [le_iff] <;> dsimp only <;> omega

/-- A part of a range, laid out from where the range starts, stands in the whole text. -/
lemma Text.Holds.standsAt_of_slice {t u x v : Text} {r : Range} (h : t.Holds r)
    (hpart : t.slice r = u ++ (x ++ v)) :
    t.StandsAt x ⟨pointAfter r.start u, pointAfter r.start (u ++ x)⟩ := by
  have hle := (offset_le_offset_iff h.start h.stop).2 h.ordered
  have hbefore : pointAfter .origin (t.take (t.offset r.start)) = r.start := h.start.pointAt_offset
  refine ⟨t.take (t.offset r.start) ++ u, v ++ t.drop (t.offset r.stop), ?_, ?_⟩
  · calc t = t.take (t.offset r.start) ++ t.slice r ++ t.drop (t.offset r.stop) := by
          rw [take_append_slice hle, List.take_append_drop]
      _ = _ := by
          rw [hpart]
          simp only [List.append_assoc]
  · rw [List.append_assoc, pointAfter_append _ _ u, pointAfter_append _ _ (u ++ x), hbefore]

namespace Occurrence

variable {t part : Text} {r : Range}

/-- The occurrence `o` of a text is the finding `f` in the text `part` of the range `r`: it has the
same parameters, stands in the range, and covers what stands between the bytes of the finding. -/
structure ReadsBack (t : Text) (r : Range) (part : Text) (o : Occurrence) (f : Finding) : Prop where
  params : o.params = f.occurrence.params
  start : t.Addressable o.range.start
  stop : t.Addressable o.range.stop
  ordered : o.range.start < o.range.stop
  inside : r.start ≤ o.range.start ∧ o.range.stop ≤ r.stop
  source : ∃ x, t.slice? o.range = some x ∧ part.byteSlice? f.startByte f.stopByte = some x

/-- What is found in a part of a text is reported where it stands in the text. -/
lemma readsBack_rebase (h : t.Holds r) {f : Finding} (hf : f ∈ Finding.all (t.slice r)) :
    ReadsBack t r (t.slice r) (f.occurrence.rebase r.start) f := by
  obtain ⟨passed, d, hsplit, hparse, rfl⟩ := Finding.mem_allFrom [] hf
  have hfirm := Declaration.firm_source hparse
  have hrange : ((Finding.behind ([] ++ passed) d).occurrence.rebase r.start).range =
      ⟨pointAfter r.start passed, pointAfter r.start (passed ++ d.source)⟩ := by
    rw [pointAfter_eq_rebase r.start passed, pointAfter_eq_rebase r.start (passed ++ d.source)]
    rfl
  have hstands := h.standsAt_of_slice hsplit
  have hend : pointAfter r.start (passed ++ d.source ++ d.rest) = r.stop := by
    rw [List.append_assoc, ← hsplit]
    exact pointAfter_slice h.start h.stop h.ordered
  rw [← hrange] at hstands
  obtain ⟨hstart, hstop, hlt⟩ := hstands.holds hfirm
  refine ⟨rfl, hstart, hstop, hlt, ?_, d.source, ?_, ?_⟩
  · rw [hrange]
    refine ⟨le_pointAfter _ _, ?_⟩
    rw [← hend, pointAfter_append _ _ d.rest]
    exact le_pointAfter _ _
  · have hholds : t.Holds _ := ⟨hstart, hstop, le_of_lt hlt⟩
    rw [hholds.slice?, hstands.slice_eq hfirm]
  · refine byteSlice?_eq_some_iff.2 ⟨passed, d.rest, hsplit, rfl, ?_⟩
    rw [byteLength_append]
    rfl

/-- The declarations found in a range are those of its text, one for one. They stand in the range
one after the other, and reading one of them back gives the bytes at which it was found. -/
theorem inRange?_reads_back (hstart : t.Addressable r.start) (hstop : t.Addressable r.stop)
    (hle : r.start ≤ r.stop) :
    ∃ part os, t.slice? r = some part ∧ inRange? t r = some os ∧
      List.Forall₂ (ReadsBack t r part) os (Finding.all part) ∧
      os.Pairwise fun o o' => o.range.stop ≤ o'.range.start := by
  have hholds : t.Holds r := ⟨hstart, hstop, hle⟩
  refine ⟨t.slice r, allAt r.start (t.slice r), hholds.slice?, ?_, ?_, ?_⟩
  · rw [inRange?, hholds.slice?, Option.map_some]
  · rw [allAt, all, List.map_map, List.forall₂_map_left_iff, List.forall₂_same]
    intro f hf
    exact readsBack_rebase hholds hf
  · have hlaid := (laid_all (t.slice r)).1.pairwise
    rw [List.pairwise_map] at hlaid
    rw [allAt, List.pairwise_map]
    exact hlaid.imp fun h => rebase_le_rebase r.start h

/-- A declaration over two rows behind a character of two bytes, searched from the middle of a
row on. -/
theorem inRange?_reads_back_second_row :
    Addressable "a é\r\r\ntemplate<\r\nclass T> b".toList ⟨0, 2⟩ ∧
      Addressable "a é\r\r\ntemplate<\r\nclass T> b".toList ⟨2, 9⟩ ∧
      (⟨0, 2⟩ : Point) ≤ ⟨2, 9⟩ ∧
      inRange? "a é\r\r\ntemplate<\r\nclass T> b".toList ⟨⟨0, 2⟩, ⟨2, 9⟩⟩ =
        some [⟨⟨⟨1, 0⟩, ⟨2, 8⟩⟩, [.type ⟨false, "T".toList, []⟩]⟩] ∧
      ∃ part os,
        slice? "a é\r\r\ntemplate<\r\nclass T> b".toList ⟨⟨0, 2⟩, ⟨2, 9⟩⟩ = some part ∧
        inRange? "a é\r\r\ntemplate<\r\nclass T> b".toList ⟨⟨0, 2⟩, ⟨2, 9⟩⟩ = some os ∧
        List.Forall₂ (ReadsBack "a é\r\r\ntemplate<\r\nclass T> b".toList ⟨⟨0, 2⟩, ⟨2, 9⟩⟩ part) os
          (Finding.all part) ∧
        os.Pairwise fun o o' => o.range.stop ≤ o'.range.start := by
  have hstart : Addressable "a é\r\r\ntemplate<\r\nclass T> b".toList ⟨0, 2⟩ := by decide +kernel
  have hstop : Addressable "a é\r\r\ntemplate<\r\nclass T> b".toList ⟨2, 9⟩ := by decide +kernel
  exact ⟨hstart, hstop, by decide, by decide +kernel,
    inRange?_reads_back hstart hstop (by decide)⟩

end Occurrence

end TemplateFolding
