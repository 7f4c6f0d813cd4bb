import Marginalia.Proofs.Number.Plain
import Marginalia.Proofs.Mark.Rereading

/-!
The appearance and the style that a free text is added with. The size and the colour are always read from them as
they were. The family stands between quotes as it is, so it is read as it was only where it has no quotes and no
semicolons, and a weight that it holds is taken for the weight of the text.
-/

namespace Marginalia

namespace DefaultStyle

/-- When a style is read as it was written: the family must not have characters that end it, nor make a plain text
bold. -/
theorem parse_render_eq {α : Type} [Scalar α] {family : String} (hblank : Unicode.isBlank family = false) (size : α)
    (bold : Bool) (color : Color) :
    parse (render family size bold color) = ⟨some (Unicode.trim family), bold⟩ ↔
      (∀ c ∈ family.toList, isFamilyChar c = true) ∧ (hasBoldWeight family.toList = true → bold = true) := by
  rw [parse_render, DefaultStyle.mk.injEq, readFamily?_eq_trim hblank, Bool.or_eq_right_iff_imp]

end DefaultStyle

namespace MarkWriter

open Document

section Written

variable {α : Type} [Scalar α] {d d' : Document α} {fonts : FontChain} {page id : ObjectId} {frame : PageFrame α}
  {m : Mark α} {box : ViewerBox α}

/-- That a text stands under a key of a dictionary. -/
def HasText (d : Document α) (id : ObjectId) (key text : String) : Prop :=
  ∃ entries : Dict α, d.stored? id = some (.dict entries) ∧ entries.get? key = some (literal text)

/-- With the default fonts every free text can be added. -/
theorem addFreeText_default (d : Document α) (page : ObjectId) (frame : PageFrame α) (m : Mark α) (box : ViewerBox α) :
    ∃ d' id, addFreeText d .default page frame m box = .ok (d', id) := by
  obtain ⟨font, hfont⟩ := FontChain.default_resolve m.fontFamily m.content
  cases hadd : addFreeText d .default page frame m box with
  | error e =>
    simp only [addFreeText, hfont, bind, Except.bind] at hadd
    cases hadd
  | ok added => exact ⟨added.1, added.2, rfl⟩

/-- The texts that a free text is added with for its looks. -/
theorem addFreeText_texts (h : addFreeText d fonts page frame m box = .ok (d', id)) :
    HasText d' id "DA" (DefaultAppearance.render (Resolution.fontPoints m.fontSize : α) m.color) ∧
      HasText d' id "DS"
        (DefaultStyle.render m.fontFamily (Resolution.fontPoints m.fontSize : α) m.bold m.color) := by
  obtain ⟨font, drawn, rfl, hadd⟩ := addFreeText_eq h
  obtain ⟨rfl, rfl⟩ := Prod.mk.inj hadd
  obtain ⟨happearance, hstyle⟩ := style_freeTextEntries page frame m box
    (addAppearance d font m (frame.rectToPage box) (Resolution.fontPoints m.fontSize)).2
  exact ⟨⟨_, stored?_add_self _ _, happearance⟩, ⟨_, stored?_add_self _ _, hstyle⟩⟩

/-- The family and the weight of a free text are read from the style that it is added with if and only if the family
has no quotes and no semicolons, and no bold weight unless the text is bold. -/
theorem addFreeText_style (h : addFreeText d fonts page frame m box = .ok (d', id))
    (hblank : Unicode.isBlank m.fontFamily = false) : ∃ style, HasText d' id "DS" style ∧
      (DefaultStyle.parse style = ⟨some (Unicode.trim m.fontFamily), m.bold⟩ ↔
        (∀ c ∈ m.fontFamily.toList, DefaultStyle.isFamilyChar c = true) ∧
          (DefaultStyle.hasBoldWeight m.fontFamily.toList = true → m.bold = true)) := by
  obtain ⟨-, hstyle⟩ := addFreeText_texts h
  exact ⟨_, hstyle, DefaultStyle.parse_render_eq hblank _ _ _⟩

end Written

/-- A free text of some family, weight, size and colour. -/
def sample (family : String) (bold : Bool) (size : Nat) (color : Color) : Mark (Exact .plain) :=
  { Mark.new (α := Exact .plain) .freeText 1 ⟨0, 0, (40 : Nat), (40 : Nat)⟩ "note" with fontFamily := family, bold, fontSize := size, color }

/-- That a sample is added to a page under an identifier. -/
def AddsSample (m : Mark (Exact .plain)) (d' : Document (Exact .plain)) (id : ObjectId) : Prop :=
  addFreeText (Document.pagesWith [] [] "" []) .default ⟨3, 0⟩ ⟨0, 0, 300⟩ m m.box = .ok (d', id)

/-- The white space around a family is left out. -/
theorem addFreeText_style_padded : Unicode.isBlank " Noto Sans " = false ∧
    ∃ d' id, AddsSample (sample " Noto Sans " true 14 .black) d' id ∧
      ∃ style, HasText d' id "DS" style ∧ DefaultStyle.parse style = ⟨some "Noto Sans", true⟩ := by
  have hblank : Unicode.isBlank " Noto Sans " = false := by decide
  have hchars : ∀ c ∈ " Noto Sans ".toList, DefaultStyle.isFamilyChar c = true := by decide
  obtain ⟨d', id, hadd⟩ : ∃ d' id, AddsSample (sample " Noto Sans " true 14 .black) d' id :=
    addFreeText_default _ _ _ _ _
  obtain ⟨style, hstyle, hread⟩ := addFreeText_style hadd hblank
  exact ⟨hblank, d', id, hadd, style, hstyle, hread.mpr ⟨hchars, fun _ => rfl⟩⟩

/-- A quote ends the family, and a weight in the family makes the text bold. -/
theorem addFreeText_style_quoted :
    (∃ d' id, AddsSample (sample "O'Brien Sans" false 14 .black) d' id ∧
      ∃ style, HasText d' id "DS" style ∧ DefaultStyle.parse style = ⟨some "O", false⟩) ∧
    ∃ d' id, AddsSample (sample "Sans (font-weight:700)" false 14 .black) d' id ∧
      ∃ style, HasText d' id "DS" style ∧ DefaultStyle.parse style = ⟨some "Sans (font-weight:700)", true⟩ := by
  have hread : ∀ family, ∃ d' id, AddsSample (sample family false 14 .black) d' id ∧
      ∃ style, HasText d' id "DS" style ∧ DefaultStyle.parse style =
        ⟨DefaultStyle.readFamily? family, DefaultStyle.hasBoldWeight family.toList || false⟩ := by
    intro family
    obtain ⟨d', id, hadd⟩ : ∃ d' id, AddsSample (sample family false 14 .black) d' id :=
      addFreeText_default _ _ _ _ _
    obtain ⟨-, hstyle⟩ := addFreeText_texts hadd
    exact ⟨d', id, hadd, _, hstyle, DefaultStyle.parse_render _ _ _ _⟩
  exact ⟨hread "O'Brien Sans", hread "Sans (font-weight:700)"⟩

/-- The size and the colour of a free text are read from the appearance that it is added with. -/
theorem addFreeText_appearance {N : Numerals} {d d' : Document (Exact N)} {fonts : FontChain} {page id : ObjectId}
    {frame : PageFrame (Exact N)} {m : Mark (Exact N)} {box : ViewerBox (Exact N)}
    (h : addFreeText d fonts page frame m box = .ok (d', id)) (hsize : (m.fontSize : Int) ≤ Resolution.maxFontPixels) :
    ∃ (text : String) (appearance : DefaultAppearance (Exact N)), HasText d' id "DA" text ∧
      DefaultAppearance.parse text = appearance ∧
      appearance.fontSize.map Resolution.fontPixels = some m.fontSize ∧ appearance.color = some m.color := by
  obtain ⟨happearance, -⟩ := addFreeText_texts h
  refine ⟨_, _, happearance, DefaultAppearance.parse_render m.fontSize m.color, ?_, rfl⟩
  exact congrArg some (Resolution.fontPixels_fontPoints hsize)

/-- The largest size that can be stored. -/
theorem addFreeText_appearance_largest : ((4294967295 : Nat) : Int) ≤ Resolution.maxFontPixels ∧
    ∃ d' id, AddsSample (sample "Arial" false 4294967295 ⟨1, 127, 254⟩) d' id ∧
      ∃ (text : String) (appearance : DefaultAppearance (Exact .plain)), HasText d' id "DA" text ∧
        DefaultAppearance.parse text = appearance ∧
        appearance.fontSize.map Resolution.fontPixels = some 4294967295 ∧ appearance.color = some ⟨1, 127, 254⟩ := by
  have hsize : ((4294967295 : Nat) : Int) ≤ Resolution.maxFontPixels := le_refl _
  obtain ⟨d', id, hadd⟩ : ∃ d' id, AddsSample (sample "Arial" false 4294967295 ⟨1, 127, 254⟩) d' id :=
    addFreeText_default _ _ _ _ _
  exact ⟨hsize, d', id, hadd, addFreeText_appearance hadd hsize⟩

end MarkWriter

end Marginalia
