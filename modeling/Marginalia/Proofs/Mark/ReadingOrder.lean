import Mathlib.Data.List.Nodup
import Mathlib.Data.Prod.Lex
import Marginalia.Proofs.Number.Exact
import Marginalia.Mark.Selection

/-!
The order in which the runs of a selection are read. Sorting puts them from top to bottom and from left to right,
and keeps those that start at one place as they were given.
-/

namespace Marginalia

variable {N : Numerals}

theorem Exact.precedes_eq (x y : Exact N) : Scalar.precedes x y = decide (x ≤ y) := by
  change (decide (x < y) || x == y && (decide (x < 0) || !decide (y < 0))) = decide (x ≤ y)
  rw [Bool.eq_iff_iff]
  simp only [Bool.or_eq_true, Bool.and_eq_true, beq_iff_eq, decide_eq_true_eq, Bool.not_eq_true',
    decide_eq_false_iff_not, le_iff_lt_or_eq]
  constructor
  · exact Or.imp_right And.left
  · exact Or.imp_right fun h => ⟨h, h ▸ em (x < 0)⟩

namespace Selection

/-- Where a run starts. Places are ordered from top to bottom and then from left to right. -/
def start (run : TextRun (Exact N)) : Exact N ×ₗ Exact N := toLex (run.box.y, run.box.x)

theorem readsBefore_iff (a b : TextRun (Exact N)) : readsBefore a b = true ↔ start a ≤ start b := by
  rw [readsBefore, start, start, Prod.Lex.toLex_le_toLex]
  simp only [Exact.precedes_eq, decide_eq_true_eq]
  rcases lt_trichotomy a.box.y b.box.y with h | h | h
  · rw [if_pos h.le, if_neg (not_le.mpr h)]
    simp only [h, true_or]
  · rw [if_pos h.le, if_pos h.ge]
    simp only [h, lt_irrefl, false_or, true_and, decide_eq_true_eq]
  · rw [if_neg (not_le.mpr h)]
    simp only [Bool.false_eq_true, h.not_gt, h.ne', false_and, or_self]

theorem readsBefore_trans (a b c : TextRun (Exact N)) (hab : readsBefore a b = true)
    (hbc : readsBefore b c = true) : readsBefore a c = true := by
  rw [readsBefore_iff] at *
  exact hab.trans hbc

theorem readsBefore_total (a b : TextRun (Exact N)) : (readsBefore a b || readsBefore b a) = true := by
  rw [Bool.or_eq_true, readsBefore_iff, readsBefore_iff]
  exact le_total _ _

/-- The runs in the order they are read in. Those that start at one place are read as they are listed. -/
structure IsReading (ordered runs : List (TextRun (Exact N))) : Prop where
  perm : ordered.Perm runs
  ascending : ordered.Pairwise fun a b => start a ≤ start b
  stable : ∀ place, ordered.filter (fun run => start run = place) = runs.filter fun run => start run = place

theorem isReading_mergeSort (runs : List (TextRun (Exact N))) : IsReading (runs.mergeSort readsBefore) runs where
  perm := List.mergeSort_perm _ _
  ascending := (List.pairwise_mergeSort readsBefore_trans readsBefore_total runs).imp fun h =>
    (readsBefore_iff _ _).mp h
  stable place := by
    let here : TextRun (Exact N) → Bool := fun run => start run = place
    -- all runs of one place are in order as they are, so sorting keeps them
    have hordered : (runs.filter here).Pairwise fun a b => readsBefore a b = true := by
      apply List.pairwise_of_forall_mem_list
      intro a ha b hb
      have ha := of_decide_eq_true (List.mem_filter.mp ha).2
      have hb := of_decide_eq_true (List.mem_filter.mp hb).2
      rw [readsBefore_iff, ha, hb]
    have hkept : (runs.filter here).Sublist ((runs.mergeSort readsBefore).filter here) := by
      have h := List.sublist_mergeSort readsBefore_trans readsBefore_total hordered List.filter_sublist
      simpa only [List.filter_filter, Bool.and_self] using h.filter here
    have hlength : (runs.filter here).length = ((runs.mergeSort readsBefore).filter here).length :=
      ((List.mergeSort_perm runs readsBefore).symm.filter here).length_eq
    exact (hkept.eq_of_length hlength).symm

/-- Runs that start at different places are read in one order, however they are listed. -/
theorem IsReading.unique {ordered ordered' runs runs' : List (TextRun (Exact N))} (h : IsReading ordered runs)
    (h' : IsReading ordered' runs') (hruns : runs.Perm runs') (hplaces : (runs.map start).Nodup) :
    ordered = ordered' := by
  apply List.Perm.eq_of_pairwise _ h.ascending h'.ascending (h.perm.trans (hruns.trans h'.perm.symm))
  intro a b ha hb hab hba
  have ha : a ∈ runs := h.perm.mem_iff.mp ha
  have hb : b ∈ runs := hruns.mem_iff.mpr (h'.perm.mem_iff.mp hb)
  exact List.inj_on_of_nodup_map hplaces ha hb (le_antisymm hab hba)

end Selection

end Marginalia
