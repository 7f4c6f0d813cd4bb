import Marginalia.Proofs.Number.Plain
import Marginalia.Proofs.Font.Substitution
import Marginalia.Proofs.Mark.Writing
import Marginalia.Proofs.Text.Wrapping

/-!
Which font a free text is drawn in. Its lines have the text but for white space, so a font that has the lines lacks
nothing of the text but white space, and that is what the choice turns on: line breaks and tabs, which are not drawn,
are looked up in the font as well.
-/

namespace Marginalia

namespace FontSource

open Unicode

/-- That a font has the white space of a text. Fonts of one byte for each character have two kinds of it. -/
def HasWhite (f : FontSource) (text : String) : Prop :=
  f.isCjk = true ∨ ∀ c ∈ text.toList, isWhite c = true → c = ' ' ∨ c = '\u00A0'

/-- White space is a space, a no-break space, a control character or above the characters of one byte. -/
theorem white_cases {c : Char} (hc : isWhite c = true) : c = ' ' ∨ c = '\u00A0' ∨ c.toNat < 0x20 ∨ c.toNat = 0x85 ∨
    0xFF < c.toNat ∧ c.toNat ≤ 0x3000 := by
  have heq : ∀ d : Char, c = d ↔ c.toNat = d.toNat := fun d => Char.toNat_inj.symm
  have hspace : ' '.toNat = 0x20 := rfl
  have hfixed : '\u00A0'.toNat = 0xA0 := rfl
  simp only [isWhite, inRanges, whiteSpace, List.any_cons, List.any_nil, Bool.or_eq_true, Bool.and_eq_true,
    decide_eq_true_eq, Bool.or_false] at hc
  rw [heq, heq, hspace, hfixed]
  omega

theorem byte?_white {c : Char} (hc : isWhite c = true) : (WinAnsi.byte? c).isSome = true ↔ c = ' ' ∨ c = '\u00A0' := by
  have hnot : WinAnsi.typographic.findIdx? (· == some c) = none := by
    have hdark : ∀ slot ∈ WinAnsi.typographic, ∀ t ∈ slot, isWhite t = false := by decide
    apply List.findIdx?_eq_none_iff.mpr
    intro slot hslot
    apply beq_eq_false_iff_ne.mpr
    intro heq
    rw [hdark slot hslot c heq] at hc
    cases hc
  rcases white_cases hc with rfl | rfl | hcode
  · simp [WinAnsi.byte?]
  · simp [WinAnsi.byte?]
  · have hrange : ¬ (0x20 ≤ c.toNat ∧ c.toNat ≤ 0x7E ∨ 0xA0 ≤ c.toNat ∧ c.toNat ≤ 0xFF) := by omega
    have hother : c ≠ ' ' ∧ c ≠ '\u00A0' := by
      constructor <;> rintro rfl <;> revert hcode <;> decide
    simp [WinAnsi.byte?, hnot, hrange, hother]

theorem supportsChar_white (f : FontSource) {c : Char} (hc : isWhite c = true) :
    f.supportsChar c = true ↔ f.isCjk = true ∨ c = ' ' ∨ c = '\u00A0' := by
  cases f with
  | standard family baseFont boldBaseFont => simp [supportsChar, isCjk, byte?_white hc]
  | cjk family baseFont ordering supplement encoding =>
    have hlow : c.toNat ≤ 0xFFFF := by
      rcases white_cases hc with rfl | rfl | hcode
      · decide
      · decide
      · omega
    simp [supportsChar, isCjk, hlow]

/-- What a font that has the lines of a text may lack of the text is white space. -/
theorem supports_iff_hasWhite {f : FontSource} {width : Nat} (hwidth : 0 < width) {text : String}
    (hlines : ∀ line ∈ Wrapping.lines width text.toList, f.supports (String.ofList line) = true) :
    f.supports text = true ↔ f.HasWhite text := by
  have hletters : ∀ c ∈ text.toList, isWhite c = false → f.supportsChar c = true := by
    intro c hc hdark
    have hmem : c ∈ letters (Wrapping.lines width text.toList).flatten := by
      rw [Wrapping.letters_lines hwidth]
      exact mem_letters.mpr ⟨hc, hdark⟩
    obtain ⟨line, hline, hcline⟩ := List.mem_flatten.mp (mem_letters.mp hmem).1
    exact List.all_eq_true.mp (hlines line hline) c (by rwa [String.toList_ofList])
  have hwhite : f.supports text = true ↔ ∀ c ∈ text.toList, isWhite c = true → f.supportsChar c = true := by
    rw [supports, List.all_eq_true]
    refine ⟨fun h c hc _ => h c hc, ?_⟩
    intro h c hc
    cases hkind : isWhite c with
    | true => exact h c hc hkind
    | false => exact hletters c hc hkind
  rw [hwhite, HasWhite]
  constructor
  · intro h
    apply or_iff_not_imp_left.mpr
    intro hcjk c hc hkind
    exact ((f.supportsChar_white hkind).mp (h c hc hkind)).resolve_left hcjk
  · intro h c hc hkind
    apply (f.supportsChar_white hkind).mpr
    rcases h with hcjk | hspaces
    · exact .inl hcjk
    · exact .inr (hspaces c hc hkind)

end FontSource

namespace FontChain

/-- A font that is found for a family is chosen if it has the whole text, and else only as the last resort. -/
theorem resolve_found {fonts : FontChain} {family text : String} {f : FontSource}
    (hfind : fonts.find? family = some f) : fonts.resolve family text = .ok f ↔ f.supports text = true ∨
      fonts.findFor? fonts.cjkFallback text = none ∧ fonts.find? fonts.universalFallback = some f := by
  have hsupports : ∀ {name : String} {g : FontSource}, fonts.findFor? name text = some g → g.supports text = true :=
    fun h => (Option.filter_eq_some_iff.mp h).2
  cases hs : f.supports text with
  | true =>
    have hown : fonts.findFor? family text = some f := Option.filter_eq_some_iff.mpr ⟨hfind, hs⟩
    simp [resolve, hown]
  | false =>
    have hown : fonts.findFor? family text = none := by
      rw [findFor?, hfind, Option.filter_some, if_neg (by simp [hs])]
    simp only [resolve, hown, Bool.false_eq_true, false_or]
    cases hcjk : fonts.findFor? fonts.cjkFallback text with
    | some g =>
      have hne : g ≠ f := fun h => by
        rw [← h, hsupports hcjk] at hs
        cases hs
      simp [hne]
    | none => cases hlast : fonts.find? fonts.universalFallback <;> simp

end FontChain

namespace MarkWriter

variable {α : Type} [Scalar α]

theorem charsPerLine_pos (width size : α) : 0 < charsPerLine width size := Nat.le_max_left 1 _

/-- The size that a free text is drawn at. -/
def drawnSize (m : Mark α) : α := Scalar.greater (Resolution.fontPoints m.fontSize) minFontSize

/-- The document with a free text that is drawn in a font, and the number of its object. -/
def addFreeTextIn (d : Document α) (f : FontSource) (page : ObjectId) (frame : PageFrame α) (m : Mark α)
    (box : ViewerBox α) : Document α × ObjectId :=
  let drawn := addAppearance d f m (frame.rectToPage box) (Resolution.fontPoints m.fontSize)
  drawn.1.add (.dict (freeTextEntries page frame m box drawn.2))

theorem addFreeText_resolve {fonts : FontChain} {m : Mark α} {f : FontSource}
    (h : fonts.resolve m.fontFamily m.content = .ok f) (d : Document α) (page : ObjectId) (frame : PageFrame α)
    (box : ViewerBox α) : addFreeText d fonts page frame m box = .ok (addFreeTextIn d f page frame m box) := by
  simp only [addFreeText, h, bind, Except.bind]
  rfl

/-- A free text is drawn in the font of its family that has all its lines if and only if that font has the white
space of the text too, or is all that is left. -/
theorem addFreeText_requested {fonts : FontChain} (page : ObjectId) {frame : PageFrame α} {m : Mark α}
    {box : ViewerBox α} {f : FontSource} (hfind : fonts.find? m.fontFamily = some f)
    (hlines : ∀ line ∈ appearanceLines m (frame.rectToPage box).width (drawnSize m),
      f.supports (String.ofList line) = true) :
    (fonts.resolve m.fontFamily m.content = .ok f ↔ f.HasWhite m.content ∨
      fonts.findFor? fonts.cjkFallback m.content = none ∧ fonts.find? fonts.universalFallback = some f) ∧
    ∀ g, fonts.resolve m.fontFamily m.content = .ok g → ∀ d : Document α,
      addFreeText d fonts page frame m box = .ok (addFreeTextIn d g page frame m box) := by
  refine ⟨?_, fun g hg d => addFreeText_resolve hg d page frame box⟩
  rw [FontChain.resolve_found hfind, FontSource.supports_iff_hasWhite (charsPerLine_pos _ _) hlines]

def helvetica : FontSource := .standard "Helvetica" "Helvetica" "Helvetica-Bold"

/-- A free text in Helvetica. -/
def plainNote (content : String) : Mark (Exact .plain) :=
  { Mark.new (α := Exact .plain) .freeText 1 ⟨0, 0, (40 : Nat), (40 : Nat)⟩ content with fontFamily := "Helvetica" }

def plainFrame : PageFrame (Exact .plain) := ⟨0, 0, (300 : Nat)⟩

/-- The lines of a free text in Helvetica. -/
def plainNoteLines (content : String) : List (List Char) :=
  appearanceLines (plainNote content) (plainFrame.rectToPage (plainNote content).box).width
    (drawnSize (plainNote content))

/-- Spaces between words and at the ends do not matter. -/
theorem addFreeText_requested_spaced : FontChain.default.find? "Helvetica" = some helvetica ∧
    plainNoteLines " two  words " = ["two", "word", "s"].map String.toList ∧
    FontChain.default.resolve "Helvetica" " two  words " = .ok helvetica ∧
    addFreeText .empty .default ⟨3, 0⟩ plainFrame (plainNote " two  words ") (plainNote " two  words ").box =
      .ok (addFreeTextIn .empty helvetica ⟨3, 0⟩ plainFrame (plainNote " two  words ")
        (plainNote " two  words ").box) := by
  have hfind : FontChain.default.find? (plainNote " two  words ").fontFamily = some helvetica := by decide
  have hlines : plainNoteLines " two  words " = ["two", "word", "s"].map String.toList := by decide +kernel
  have hshown : ∀ line ∈ plainNoteLines " two  words ", helvetica.supports (String.ofList line) = true := by
    rw [hlines]
    decide
  have hwhite : helvetica.HasWhite " two  words " := .inr (by decide)
  obtain ⟨hchosen, hadd⟩ := addFreeText_requested ⟨3, 0⟩ hfind hshown
  have hresolve := hchosen.mpr (.inl hwhite)
  exact ⟨hfind, hlines, hresolve, hadd _ hresolve .empty⟩

/-- A line break is looked up in the font, which has every line, and the text is drawn in another one. -/
theorem addFreeText_broken : FontChain.default.find? "Helvetica" = some helvetica ∧
    plainNoteLines "a\nb" = [['a'], ['b']] ∧
    (∀ line ∈ plainNoteLines "a\nb", helvetica.supports (String.ofList line) = true) ∧
    FontChain.default.resolve "Helvetica" "a\nb" = .ok Document.koreanFont ∧ Document.koreanFont ≠ helvetica ∧
    addFreeText .empty .default ⟨3, 0⟩ plainFrame (plainNote "a\nb") (plainNote "a\nb").box =
      .ok (addFreeTextIn .empty Document.koreanFont ⟨3, 0⟩ plainFrame (plainNote "a\nb")
        (plainNote "a\nb").box) := by
  have hlines : plainNoteLines "a\nb" = [['a'], ['b']] := by decide +kernel
  have hresolve : FontChain.default.resolve (plainNote "a\nb").fontFamily (plainNote "a\nb").content =
      .ok Document.koreanFont := by decide
  refine ⟨by decide, hlines, ?_, hresolve, by decide, addFreeText_resolve hresolve _ _ _ _⟩
  rw [hlines]
  decide

end MarkWriter

end Marginalia
