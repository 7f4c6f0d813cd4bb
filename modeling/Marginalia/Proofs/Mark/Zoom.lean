import Marginalia.Proofs.Mark.RoundTrip
import Marginalia.Proofs.Mark.Saving
import Marginalia.File

/-!
The zoom factor that coordinates were taken at. Saving sees a box only as it is at a zoom of one, and nothing else
of it, so annotations whose boxes are then the same are saved alike: to the same document, or with the same error.
-/

namespace Marginalia

variable {α : Type} [Scalar α]

/-- The box as it is seen at a zoom factor. -/
def ViewerBox.zoomed (zoom : α) (b : ViewerBox α) : ViewerBox α :=
  ⟨zoom * b.x, zoom * b.y, zoom * b.width, zoom * b.height⟩

/-- The annotation as it is seen at a zoom factor. Its font size is not a coordinate. -/
def Mark.zoomed (zoom : α) (m : Mark α) : Mark α :=
  { m with box := m.box.zoomed zoom }

/-- That two annotations differ in their boxes only, which are the same box at a zoom of one. -/
structure Mark.SameUnscaled (zoom zoom' : α) (m m' : Mark α) : Prop where
  eq : m' = { m with box := m'.box }
  unscaled : m'.box.unscaled zoom' = m.box.unscaled zoom

/-- What does not look at the box is the same of both. -/
theorem Mark.SameUnscaled.congr {β : Type} {zoom zoom' : α} {m m' : Mark α} (h : m.SameUnscaled zoom zoom' m')
    {f : Mark α → β} (hf : ∀ m box, f { m with box } = f m) : f m' = f m := by
  rw [h.eq]
  exact hf m m'.box

namespace SaveOptions

/-- Where the zoom factor is not finite, or not positive, it counts as one. -/
theorem effectiveScale_unusable {o : SaveOptions α}
    (h : ¬ (Scalar.isFinite o.scale = true ∧ Scalar.zero < o.scale)) : o.effectiveScale = Scalar.one := by
  unfold effectiveScale
  rw [if_neg]
  simpa using h

theorem effectiveScale_one (fonts : FontChain) : (⟨Scalar.one, fonts⟩ : SaveOptions α).effectiveScale = Scalar.one := by
  unfold effectiveScale
  split <;> rfl

end SaveOptions

namespace MarkWriter

variable {o o' : SaveOptions α}

/-- That annotations in lists saved with two sets of options are the same in turn, but for the zoom factor that
their boxes were taken at. -/
def AllSame (o o' : SaveOptions α) : List (Mark α) → List (Mark α) → Prop :=
  List.Forall₂ (Mark.SameUnscaled o.effectiveScale o'.effectiveScale)

section AllSame

variable {ms ms' : List (Mark α)} (h : AllSame o o' ms ms') {p : Mark α → Bool} (hp : ∀ m box, p { m with box } = p m)

include h hp

theorem AllSame.filter : AllSame o o' (ms.filter p) (ms'.filter p) := by
  induction h with
  | nil => exact .nil
  | cons hm _ ih =>
    rw [List.filter_cons, List.filter_cons, hm.congr hp]
    split
    · exact .cons hm ih
    · exact ih

theorem AllSame.any_eq : ms'.any p = ms.any p := by
  induction h with
  | nil => rfl
  | cons hm _ ih => rw [List.any_cons, List.any_cons, hm.congr hp, ih]

end AllSame

section Same

variable (hfonts : o'.fonts = o.fonts)

include hfonts

theorem addObject_unscaled {m m' : Mark α}
    (h : m.SameUnscaled o.effectiveScale o'.effectiveScale m') (page : ObjectId) (frame : PageFrame α)
    (d : Document α) : addObject o' page frame d m' = addObject o page frame d m := by
  rw [addObject, addObject, h.unscaled, hfonts, h.eq]
  rfl

theorem addObjects_unscaled {ms ms' : List (Mark α)} (h : AllSame o o' ms ms')
    (page : ObjectId) (frame : PageFrame α) (d : Document α) :
    addObjects o' page frame d ms' = addObjects o page frame d ms := by
  induction h generalizing d with
  | nil => rfl
  | cons hm _ ih =>
    rw [addObjects_cons, addObjects_cons, addObject_unscaled hfonts hm]
    simp only [ih]

theorem showAll_unscaled {ms ms' : List (Mark α)} (h : AllSame o o' ms ms')
    (frame : PageFrame α) (s : Drawing α) : s.showAll o' frame ms' = s.showAll o frame ms := by
  induction h generalizing s with
  | nil => rfl
  | @cons m m' ms ms' hm _ ih =>
    have hshow : s.show_ o'.fonts frame m' (m'.box.unscaled o'.effectiveScale) =
        s.show_ o.fonts frame m (m.box.unscaled o.effectiveScale) := by
      rw [hm.unscaled, hfonts, hm.eq]
      rfl
    rw [Drawing.showAll, Drawing.showAll, hshow]
    simp only [ih]

theorem addLayer_unscaled {ms ms' : List (Mark α)} (h : AllSame o o' ms ms')
    (d : Document α) (page : ObjectId) (frame : PageFrame α) (resources : Dict α) :
    addLayer o' d page frame resources ms' = addLayer o d page frame resources ms := by
  simp only [addLayer, showAll_unscaled hfonts h]

theorem addPage_unscaled {ms ms' : List (Mark α)} (h : AllSame o o' ms ms')
    (d : Document α) (t : Target α) : addPage o' d t ms' = addPage o d t ms := by
  have hobjects := h.filter (p := fun m => m.kind != .ocrText) fun _ _ => rfl
  have hlayer := h.filter (p := fun m => m.kind == .ocrText) fun _ _ => rfl
  have hempty : (ms'.filter fun m => m.kind == .ocrText).isEmpty = (ms.filter fun m => m.kind == .ocrText).isEmpty := by
    rw [Bool.eq_iff_iff, List.isEmpty_iff_length_eq_zero, List.isEmpty_iff_length_eq_zero, hlayer.length_eq]
  unfold addPage
  simp only [addObjects_unscaled hfonts hobjects, addLayer_unscaled hfonts hlayer, hempty]

theorem addPages_unscaled {ms ms' : List (Mark α)} (h : AllSame o o' ms ms')
    (d : Document α) (ts : List (Target α)) : addPages o' ms' d ts = addPages o ms d ts := by
  induction ts generalizing d with
  | nil => rfl
  | cons t ts ih =>
    rw [addPages, addPages, addPage_unscaled hfonts (h.filter fun _ _ => rfl)]
    simp only [ih]

end Same

end MarkWriter

namespace Document

open MarkWriter

/-- Annotations that are the same at a zoom of one are saved alike. -/
theorem save_unscaled (o o' : SaveOptions α) (hfonts : o'.fonts = o.fonts) {ms ms' : List (Mark α)}
    (h : AllSame o o' ms ms') (d : Document α) : d.save o' ms' = d.save o ms := by
  have hobjects : hasObjects (targets d) ms' = hasObjects (targets d) ms := h.any_eq fun _ _ => rfl
  simp only [save_eq, addPages_unscaled hfonts h, hobjects]

end Document

section Exact

variable {N : Numerals}

/-- A positive zoom factor is taken back whole, whatever the signs of the extents are. -/
theorem ViewerBox.unscaled_zoomed {zoom : Exact N} (hz : 0 < zoom) (b : ViewerBox (Exact N)) :
    (b.zoomed zoom).unscaled zoom = b.normalized := by
  have hne : zoom ≠ 0 := ne_of_gt hz
  have hright : zoom * b.x + zoom * b.width = zoom * (b.x + b.width) := by ring
  have hbottom : zoom * b.y + zoom * b.height = zoom * (b.y + b.height) := by ring
  rw [unscaled, normalized_eq, normalized_eq]
  simp only [zoomed, hright, hbottom, ← mul_min_of_nonneg _ _ hz.le, abs_mul, abs_of_pos hz,
    mul_div_cancel_left₀ _ hne]

theorem SaveOptions.effectiveScale_pos {zoom : Exact N} (hz : 0 < zoom) (fonts : FontChain) :
    (⟨zoom, fonts⟩ : SaveOptions (Exact N)).effectiveScale = zoom := by
  unfold effectiveScale
  rw [if_pos]
  simpa [Exact.isFinite_eq] using hz

theorem Mark.sameUnscaled_zoomed {zoom : Exact N} (hz : 0 < zoom) (m : Mark (Exact N)) :
    m.SameUnscaled 1 zoom (m.zoomed zoom) :=
  ⟨rfl, by rw [ViewerBox.unscaled_one]; exact ViewerBox.unscaled_zoomed hz m.box⟩

theorem MarkWriter.allSame_zoomed {zoom : Exact N} (hz : 0 < zoom) (fonts : FontChain) (ms : List (Mark (Exact N))) :
    AllSame ⟨1, fonts⟩ ⟨zoom, fonts⟩ ms (ms.map (Mark.zoomed zoom)) := by
  rw [AllSame, SaveOptions.effectiveScale_pos hz, SaveOptions.effectiveScale_pos one_pos]
  exact List.forall₂_map_right_iff.mpr (List.forall₂_same.mpr fun m _ => m.sameUnscaled_zoomed hz)

end Exact

namespace Document

theorem save_unusable {o : SaveOptions α} (h : ¬ (Scalar.isFinite o.scale = true ∧ Scalar.zero < o.scale))
    (d : Document α) (ms : List (Mark α)) : d.save o ms = d.save ⟨Scalar.one, o.fonts⟩ ms := by
  refine save_unscaled ⟨Scalar.one, o.fonts⟩ o rfl (List.forall₂_same.mpr fun m _ => ⟨rfl, ?_⟩) d
  rw [SaveOptions.effectiveScale_unusable h, SaveOptions.effectiveScale_one]

/-- Annotations as they are seen at a positive zoom factor, saved with it, are saved as they are at a zoom of one:
to the same document or with the same error. A factor that is not finite or not positive counts as one, with any
numbers and so with those of files. -/
theorem save_zoomed (fonts : FontChain) :
    (∀ {N : Numerals} (d : Document (Exact N)) (ms : List (Mark (Exact N))) (zoom : Exact N), 0 < zoom →
        d.save ⟨zoom, fonts⟩ (ms.map (Mark.zoomed zoom)) = d.save ⟨1, fonts⟩ ms) ∧
      (∀ {β : Type} [Scalar β] (d : Document β) (ms : List (Mark β)) (zoom : β),
        ¬ (Scalar.isFinite zoom = true ∧ Scalar.zero < zoom) →
          d.save ⟨zoom, fonts⟩ ms = d.save ⟨Scalar.one, fonts⟩ ms) ∧
      ∀ (file : Bytes) (ms : List (Mark Float)) (zoom : Float),
        ¬ (Scalar.isFinite zoom = true ∧ Scalar.zero < zoom) →
          File.save file ⟨zoom, fonts⟩ ms = File.save file ⟨Scalar.one, fonts⟩ ms := by
  refine ⟨fun d ms zoom hz => ?_, fun d ms zoom h => ?_, fun file ms zoom h => ?_⟩
  · exact save_unscaled ⟨1, fonts⟩ ⟨zoom, fonts⟩ rfl (MarkWriter.allSame_zoomed hz fonts ms) d
  · exact save_unusable (o := ⟨zoom, fonts⟩) h d ms
  · simp only [File.save, save_unusable (o := ⟨zoom, fonts⟩) h]

/-- Texts, a highlight and a note, as they are seen enlarged by a half; a factor of zero; and what is no number. -/
theorem save_zoomed_twoPages :
    (∃ w, (0 : Exact .plain) < 3 / 2 ∧ (twoPages ⟨5, 0⟩).save ⟨1, .default⟩ severalMarks = .ok w ∧
      (twoPages ⟨5, 0⟩).save ⟨3 / 2, .default⟩ (severalMarks.map (Mark.zoomed (3 / 2))) = .ok w) ∧
    (¬ (Scalar.isFinite (0 : Exact .plain) = true ∧ Scalar.zero < (0 : Exact .plain)) ∧
      (twoPages ⟨5, 0⟩).save ⟨0, .default⟩ severalMarks = (twoPages ⟨5, 0⟩).save ⟨Scalar.one, .default⟩ severalMarks) ∧
    ¬ (Scalar.isFinite (0 / 0 : Float) = true ∧ Scalar.zero < (0 / 0 : Float)) ∧
      File.save [] ⟨0 / 0, .default⟩ [] = File.save [] ⟨Scalar.one, .default⟩ [] := by
  have hpos : (0 : Exact .plain) < 3 / 2 := by norm_num
  have hzero : ¬ (Scalar.isFinite (0 : Exact .plain) = true ∧ Scalar.zero < (0 : Exact .plain)) := by
    rintro ⟨-, hlt⟩
    exact lt_irrefl _ hlt
  have hnan : ¬ (Scalar.isFinite (0 / 0 : Float) = true ∧ Scalar.zero < (0 / 0 : Float)) := by decide
  refine ⟨?_, ⟨hzero, (save_zoomed .default).2.1 _ _ 0 hzero⟩, hnan, (save_zoomed .default).2.2 [] [] _ hnan⟩
  have hok : ((twoPages ⟨5, 0⟩).save ⟨1, .default⟩ severalMarks).toOption.isSome = true := by decide +kernel
  cases hs : (twoPages ⟨5, 0⟩).save ⟨1, .default⟩ severalMarks with
  | error e =>
    rw [hs] at hok
    cases hok
  | ok w => exact ⟨w, hpos, rfl, ((save_zoomed .default).1 _ severalMarks (3 / 2) hpos).trans hs⟩

end Document

end Marginalia
