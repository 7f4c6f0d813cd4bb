import Marginalia.Proofs.Mark.Objects
import Marginalia.Proofs.Number.Plain

/-!
The corners of a highlight or an underline. They are written as they lie on the page, and nothing is lost between
the page and the viewer.
-/

namespace Marginalia

variable {N : Numerals}

namespace MarkWriter

open Document

/-- The sides and the corners that the object of a markup has are those of its box on the page. -/
theorem addMarkup_corners (d : Document (Exact N)) (page : ObjectId) (frame : PageFrame (Exact N)) (m : Mark (Exact N))
    (box : ViewerBox (Exact N)) :
    let rect := frame.rectToPage box
    ∃ entries, (addMarkup d page frame m box).1.getDict? (addMarkup d page frame m box).2 = some entries ∧
      entries.get? "Rect" = some (.array [.real rect.left, .real rect.bottom, .real rect.right, .real rect.top]) ∧
      entries.get? "QuadPoints" = some (.array [.real rect.left, .real rect.top, .real rect.right, .real rect.top,
        .real rect.left, .real rect.bottom, .real rect.right, .real rect.bottom]) := by
  refine ⟨markupEntries page frame m box, ?_, ?_, ?_⟩
  · rw [addMarkup_eq]
    exact getDict?_of_stored? (stored?_add_self _ _)
  · exact (get?_markupEntries page frame m box).2.1
  · simp +decide only [markupEntries, Dict.get?_ofList_cons, Dict.get?_ofList_nil, if_true, if_false,
      Option.none_or, Option.or_none]
    rfl

end MarkWriter

namespace PageFrame

/-- The crossing between page and viewer can be taken back in both directions: points come out where they were, a box
comes out with extents that are not negative, and a rectangle with its sides in order as it was. A highlight or
an underline is written with the sides of its box, which are in order, and with its corners from the top left to
the bottom right. -/
theorem crossing_inverse (f : PageFrame (Exact N)) :
    (∀ x y, f.toPage (f.toViewer x y).1 (f.toViewer x y).2 = (x, y)) ∧
      (∀ x y, f.toViewer (f.toPage x y).1 (f.toPage x y).2 = (x, y)) ∧
      (∀ box, f.rectToViewer (f.rectToPage box) = box.normalized) ∧
      (∀ r : PageRect (Exact N), r.left ≤ r.right → r.bottom ≤ r.top → f.rectToPage (f.rectToViewer r) = r) ∧
      ∀ (d : Document (Exact N)) (page : ObjectId) (m : Mark (Exact N)) (box : ViewerBox (Exact N)),
        let rect := f.rectToPage box
        let added := MarkWriter.addMarkup d page f m box
        rect.left ≤ rect.right ∧ rect.bottom ≤ rect.top ∧
          ∃ entries, added.1.getDict? added.2 = some entries ∧
            entries.get? "Rect" =
              some (.array [.real rect.left, .real rect.bottom, .real rect.right, .real rect.top]) ∧
            entries.get? "QuadPoints" = some (.array [.real rect.left, .real rect.top, .real rect.right,
              .real rect.top, .real rect.left, .real rect.bottom, .real rect.right, .real rect.bottom]) := by
  refine ⟨f.toPage_toViewer, f.toViewer_toPage, f.rectToViewer_rectToPage, fun r hx hy =>
    f.rectToPage_rectToViewer hx hy, fun d page m box => ?_⟩
  obtain ⟨hx, hy⟩ := f.rectToPage_ordered box
  exact ⟨hx, hy, MarkWriter.addMarkup_corners d page f m box⟩

/-- A rectangle to the left of the visible part of its page, and partly above it. -/
theorem crossing_inverse_outside :
    let f : PageFrame (Exact .plain) := ⟨30, -18, 200⟩
    let r : PageRect (Exact .plain) := ⟨-12, 170, 20, 210⟩
    r.left ≤ r.right ∧ r.bottom ≤ r.top ∧ f.rectToPage (f.rectToViewer r) = r := by
  intro f r
  have hx : r.left ≤ r.right := by decide
  have hy : r.bottom ≤ r.top := by decide
  exact ⟨hx, hy, (crossing_inverse f).2.2.2.1 r hx hy⟩

end PageFrame

end Marginalia
