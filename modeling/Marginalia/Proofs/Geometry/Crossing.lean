import Marginalia.Proofs.Number.Exact

/-!
The crossing from the viewer to the page and back, and from the page to the viewer and back. Over exact numbers it
loses nothing but the sign of the extents of a box.
-/

namespace Marginalia

variable {N : Numerals}

namespace ViewerBox

theorem normalized_eq (b : ViewerBox (Exact N)) :
    b.normalized = ⟨min b.x (b.x + b.width), min b.y (b.y + b.height), |b.width|, |b.height|⟩ := by
  simp [normalized, ofCorners, right, bottom]

/-- A box with extents that are not negative is normal. -/
theorem normalized_of_nonneg {b : ViewerBox (Exact N)} (hw : 0 ≤ b.width) (hh : 0 ≤ b.height) :
    b.normalized = b := by
  rw [normalized_eq, min_eq_left (by linarith), min_eq_left (by linarith), abs_of_nonneg hw,
    abs_of_nonneg hh]

theorem width_normalized (b : ViewerBox (Exact N)) : b.normalized.width = |b.width| := by
  rw [normalized_eq]

theorem height_normalized (b : ViewerBox (Exact N)) : b.normalized.height = |b.height| := by
  rw [normalized_eq]

theorem normalized_normalized (b : ViewerBox (Exact N)) : b.normalized.normalized = b.normalized := by
  apply normalized_of_nonneg
  · rw [width_normalized]
    exact abs_nonneg _
  · rw [height_normalized]
    exact abs_nonneg _

theorem unscaled_one (b : ViewerBox (Exact N)) : b.unscaled 1 = b.normalized := by
  simp [unscaled]

end ViewerBox

namespace PageRect

/-- A rectangle is read from its sides as it was, if they are in order. -/
theorem ofCorners_of_le {r : PageRect (Exact N)} (hx : r.left ≤ r.right) (hy : r.bottom ≤ r.top) :
    PageRect.ofCorners r.left r.bottom r.right r.top = r := by
  simp [ofCorners, min_eq_left hx, min_eq_left hy, max_eq_right hx, max_eq_right hy]

end PageRect

namespace PageFrame

variable (f : PageFrame (Exact N)) (b : ViewerBox (Exact N))

theorem toPage_eq (x y : Exact N) :
    f.toPage x y = (f.left + x * (3 / 4), f.bottom + f.height - y * (3 / 4)) := by
  simp [toPage, top]

theorem toViewer_eq (x y : Exact N) :
    f.toViewer x y = ((x - f.left) * (4 / 3), (f.height + f.bottom - y) * (4 / 3)) := by
  simp [toViewer]

/-- A point that is taken to the page and back comes out where it was. -/
theorem toViewer_toPage (x y : Exact N) :
    f.toViewer (f.toPage x y).1 (f.toPage x y).2 = (x, y) := by
  rw [toPage_eq, toViewer_eq]
  ext <;> simp only <;> ring

/-- A point that is taken to the viewer and back comes out where it was. -/
theorem toPage_toViewer (x y : Exact N) :
    f.toPage (f.toViewer x y).1 (f.toViewer x y).2 = (x, y) := by
  rw [toViewer_eq, toPage_eq]
  ext <;> simp only <;> ring

/-- The sides of a box on the page, which are in order. -/
theorem rectToPage_eq :
    f.rectToPage b = ⟨f.left + b.normalized.x * (3 / 4),
      f.bottom + f.height - (b.normalized.y + b.normalized.height) * (3 / 4),
      f.left + (b.normalized.x + b.normalized.width) * (3 / 4),
      f.bottom + f.height - b.normalized.y * (3 / 4)⟩ := by
  have hw : 0 ≤ b.normalized.width := by rw [b.width_normalized]; exact abs_nonneg _
  have hh : 0 ≤ b.normalized.height := by rw [b.height_normalized]; exact abs_nonneg _
  simp only [rectToPage, toPage_eq, ViewerBox.right, ViewerBox.bottom, PageRect.ofCorners,
    Exact.lesser_eq, Exact.greater_eq]
  rw [min_eq_left (by linarith), min_eq_left (by linarith), max_eq_right (by linarith),
    max_eq_right (by linarith)]

theorem rectToPage_ordered :
    (f.rectToPage b).left ≤ (f.rectToPage b).right ∧ (f.rectToPage b).bottom ≤ (f.rectToPage b).top := by
  have hw : 0 ≤ b.normalized.width := by rw [b.width_normalized]; exact abs_nonneg _
  have hh : 0 ≤ b.normalized.height := by rw [b.height_normalized]; exact abs_nonneg _
  rw [rectToPage_eq]
  constructor <;> simp only <;> linarith

/-- A box that is taken to the page and back has extents that are not negative, and is the same box
otherwise. -/
theorem rectToViewer_rectToPage : f.rectToViewer (f.rectToPage b) = b.normalized := by
  have hw : 0 ≤ b.normalized.width := by rw [b.width_normalized]; exact abs_nonneg _
  have hh : 0 ≤ b.normalized.height := by rw [b.height_normalized]; exact abs_nonneg _
  rw [rectToPage_eq]
  generalize b.normalized = n at *
  have hx : n.x ≤ n.x + n.width := by linarith
  have hy : n.y ≤ n.y + n.height := by linarith
  have hright : (f.left + (n.x + n.width) * (3 / 4) - f.left) * (4 / 3) = n.x + n.width := by ring
  have hleft : (f.left + n.x * (3 / 4) - f.left) * (4 / 3) = n.x := by ring
  have htop : (f.height + f.bottom - (f.bottom + f.height - n.y * (3 / 4))) * (4 / 3) = n.y := by ring
  have hbottom : (f.height + f.bottom - (f.bottom + f.height - (n.y + n.height) * (3 / 4))) * (4 / 3) =
      n.y + n.height := by ring
  have hwidth : |n.x + n.width - n.x| = n.width := by
    rw [add_sub_cancel_left, abs_of_nonneg hw]
  have hheight : |n.y + n.height - n.y| = n.height := by
    rw [add_sub_cancel_left, abs_of_nonneg hh]
  simp only [rectToViewer, toViewer_eq, ViewerBox.ofCorners, Exact.lesser_eq, Exact.absolute_eq,
    hleft, hright, htop, hbottom, min_eq_left hx, min_eq_left hy, hwidth, hheight]

/-- The box of a rectangle whose sides are in order. -/
theorem rectToViewer_eq {r : PageRect (Exact N)} (hx : r.left ≤ r.right) (hy : r.bottom ≤ r.top) :
    f.rectToViewer r = ⟨(r.left - f.left) * (4 / 3), (f.height + f.bottom - r.top) * (4 / 3),
      (r.right - r.left) * (4 / 3), (r.top - r.bottom) * (4 / 3)⟩ := by
  have hwidth : (r.right - f.left) * (4 / 3) - (r.left - f.left) * (4 / 3) = (r.right - r.left) * (4 / 3) := by ring
  have hheight : (f.height + f.bottom - r.bottom) * (4 / 3) - (f.height + f.bottom - r.top) * (4 / 3) =
      (r.top - r.bottom) * (4 / 3) := by ring
  simp only [rectToViewer, toViewer_eq, ViewerBox.ofCorners, Exact.lesser_eq, Exact.absolute_eq, hwidth, hheight]
  rw [min_eq_left (by linarith), min_eq_left (by linarith), abs_of_nonneg (by linarith),
    abs_of_nonneg (by linarith)]

/-- A rectangle whose sides are in order comes back from the viewer as it was. -/
theorem rectToPage_rectToViewer {r : PageRect (Exact N)} (hx : r.left ≤ r.right) (hy : r.bottom ≤ r.top) :
    f.rectToPage (f.rectToViewer r) = r := by
  have hnormal : (f.rectToViewer r).normalized = f.rectToViewer r := by
    apply ViewerBox.normalized_of_nonneg <;> rw [rectToViewer_eq f hx hy] <;> simp only <;> linarith
  rw [rectToPage_eq, hnormal, rectToViewer_eq f hx hy]
  cases r
  simp only [PageRect.mk.injEq]
  refine ⟨?_, ?_, ?_, ?_⟩ <;> ring

end PageFrame

end Marginalia
