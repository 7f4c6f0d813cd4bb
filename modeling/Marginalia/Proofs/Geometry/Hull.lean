import Mathlib.Order.Interval.Set.UnorderedInterval
import Marginalia.Proofs.Geometry.Crossing

/-!
Boxes as the points they hold. The union of two boxes is the join of their points among boxes, so a box that is
grown by unions is the smallest one around all it was grown by, in whichever order that was.
-/

namespace Marginalia

namespace ViewerBox

variable {N : Numerals} {a b : ViewerBox (Exact N)}

/-- The points between the two corners of a box, its edges included, whichever way it extends. -/
def points (b : ViewerBox (Exact N)) : Set (Exact N × Exact N) :=
  Set.uIcc b.x b.right ×ˢ Set.uIcc b.y b.bottom

theorem left_le_right_normalized (b : ViewerBox (Exact N)) : b.normalized.x ≤ b.normalized.right := by
  rw [right, width_normalized]
  exact le_add_of_nonneg_right (abs_nonneg _)

theorem top_le_bottom_normalized (b : ViewerBox (Exact N)) : b.normalized.y ≤ b.normalized.bottom := by
  rw [bottom, height_normalized]
  exact le_add_of_nonneg_right (abs_nonneg _)

/-- The points of a box lie between the sides of the box with its extents made positive. -/
theorem points_eq (b : ViewerBox (Exact N)) :
    b.points = Set.Icc b.normalized.x b.normalized.right ×ˢ Set.Icc b.normalized.y b.normalized.bottom := by
  have hside (x extent : Exact N) : min x (x + extent) + |extent| = max x (x + extent) := by
    rcases le_total 0 extent with h | h
    · rw [min_eq_left (by linarith), max_eq_right (by linarith), abs_of_nonneg h]
    · rw [min_eq_right (by linarith), max_eq_left (by linarith), abs_of_nonpos h]
      ring
  simp only [points, Set.uIcc, right, bottom, normalized_eq, hside]

theorem points_normalized (b : ViewerBox (Exact N)) : b.normalized.points = b.points := by
  rw [points_eq, normalized_normalized, ← points_eq]

/-- One box holds the points of another when each of its sides is as far out. -/
theorem points_subset_iff :
    a.points ⊆ b.points ↔
      (b.normalized.x ≤ a.normalized.x ∧ a.normalized.right ≤ b.normalized.right) ∧
        b.normalized.y ≤ a.normalized.y ∧ a.normalized.bottom ≤ b.normalized.bottom := by
  have hx := a.left_le_right_normalized
  have hy := a.top_le_bottom_normalized
  rw [a.points_eq, b.points_eq,
    Set.prod_subset_prod_iff' ((Set.nonempty_Icc.mpr hx).prod (Set.nonempty_Icc.mpr hy)),
    Set.Icc_subset_Icc_iff hx, Set.Icc_subset_Icc_iff hy]

/-- Boxes with extents that are not negative are told apart by their points. -/
theorem eq_of_points (ha : a.normalized = a) (hb : b.normalized = b) (h : a.points = b.points) : a = b := by
  obtain ⟨⟨hleft, hright⟩, htop, hbottom⟩ := points_subset_iff.mp h.subset
  obtain ⟨⟨hleft', hright'⟩, htop', hbottom'⟩ := points_subset_iff.mp h.superset
  rw [ha, hb] at hleft hright htop hbottom hleft' hright' htop' hbottom'
  have hx : a.x = b.x := le_antisymm hleft' hleft
  have hy : a.y = b.y := le_antisymm htop' htop
  have hwidth : a.x + a.width = b.x + b.width := le_antisymm hright hright'
  have hheight : a.y + a.height = b.y + b.height := le_antisymm hbottom hbottom'
  rw [hx, add_right_inj] at hwidth
  rw [hy, add_right_inj] at hheight
  cases a
  cases b
  simp only [mk.injEq]
  exact ⟨hx, hy, hwidth, hheight⟩

/-- The sides of a union are the outermost of the two boxes. -/
theorem union_eq (a b : ViewerBox (Exact N)) :
    let left := min a.normalized.x b.normalized.x
    let top := min a.normalized.y b.normalized.y
    a.union b = ⟨left, top, max a.normalized.right b.normalized.right - left,
      max a.normalized.bottom b.normalized.bottom - top⟩ := by
  intro left top
  have hx : left ≤ max a.normalized.right b.normalized.right :=
    (min_le_left _ _).trans (a.left_le_right_normalized.trans (le_max_left _ _))
  have hy : top ≤ max a.normalized.bottom b.normalized.bottom :=
    (min_le_left _ _).trans (a.top_le_bottom_normalized.trans (le_max_left _ _))
  simp only [union, ofCorners, Exact.lesser_eq, Exact.greater_eq, Exact.absolute_eq]
  rw [min_eq_left hx, min_eq_left hy, abs_of_nonneg (sub_nonneg.mpr hx), abs_of_nonneg (sub_nonneg.mpr hy)]

theorem normalized_union (a b : ViewerBox (Exact N)) : (a.union b).normalized = a.union b := by
  apply normalized_of_nonneg <;> simp only [union, ofCorners, Exact.absolute_eq] <;> exact abs_nonneg _

/-- A box holds a union when it holds both boxes. -/
theorem points_union_subset_iff {d : ViewerBox (Exact N)} :
    (a.union b).points ⊆ d.points ↔ a.points ⊆ d.points ∧ b.points ⊆ d.points := by
  simp only [points_subset_iff, normalized_union]
  simp only [union_eq, right, bottom, add_sub_cancel, le_min_iff, max_le_iff]
  tauto

/-- The smallest box that holds all of some boxes. -/
structure IsHull (b : ViewerBox (Exact N)) (boxes : List (ViewerBox (Exact N))) : Prop where
  normal : b.normalized = b
  encloses : ∀ c ∈ boxes, c.points ⊆ b.points
  least : ∀ d : ViewerBox (Exact N), (∀ c ∈ boxes, c.points ⊆ d.points) → b.points ⊆ d.points

namespace IsHull

variable {boxes boxes' : List (ViewerBox (Exact N))}

/-- There is only one smallest box. -/
theorem unique (ha : a.IsHull boxes) (hb : b.IsHull boxes) : a = b := by
  apply eq_of_points ha.normal hb.normal
  exact Set.Subset.antisymm (ha.least b hb.encloses) (hb.least a ha.encloses)

/-- It does not matter how the boxes are listed. -/
theorem perm (ha : a.IsHull boxes) (h : boxes.Perm boxes') : a.IsHull boxes' where
  normal := ha.normal
  encloses c hc := ha.encloses c (h.mem_iff.mpr hc)
  least d hd := ha.least d fun c hc => hd c (h.mem_iff.mp hc)

theorem single (b : ViewerBox (Exact N)) : b.normalized.IsHull [b.normalized] where
  normal := b.normalized_normalized
  encloses c hc := by rw [List.mem_singleton.mp hc]
  least d h := h b.normalized (List.mem_singleton_self _)

/-- A smallest box stays one when a box is added and it is grown by that box. -/
theorem union (ha : a.IsHull boxes) (b : ViewerBox (Exact N)) : (a.union b).IsHull (b.normalized :: boxes) where
  normal := normalized_union a b
  encloses := by
    obtain ⟨hold, hnew⟩ := points_union_subset_iff.mp (subset_refl (a.union b).points)
    intro c hc
    rcases List.mem_cons.mp hc with rfl | hc
    · rw [points_normalized]
      exact hnew
    · exact (ha.encloses c hc).trans hold
  least d h := by
    obtain ⟨hnew, hold⟩ := List.forall_mem_cons.mp h
    rw [points_normalized] at hnew
    exact points_union_subset_iff.mpr ⟨ha.least d hold, hnew⟩

end IsHull

end ViewerBox

end Marginalia
