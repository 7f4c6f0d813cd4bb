import Marginalia.Proofs.Number.Unrounded
import Marginalia.Graphics.Machine

/-!
Showing a text in pieces. Over exact numbers the pen comes to stand where the text shown in one go leaves it,
and the runs of the pieces, put together, are the one run of the whole text.
-/

namespace Marginalia

variable {α : Type} [Unrounded α]

namespace TextRun

/-- Runs put together: one run with all their texts, which starts where the first one does and is as wide as
they are together. -/
def merge : List (TextRun α) → List (TextRun α)
  | [] => []
  | first :: later =>
    [⟨String.join (first.text :: later.map text),
      { first.box with width := first.box.width + (later.map (·.box.width)).sum }⟩]

end TextRun

namespace GraphicsState

variable (g : GraphicsState α)

/-- How far a text of so many characters moves the pen. -/
def advance (count : Nat) : α := (count : α) * g.fontSize * glyphRatio * g.horizontalScaling

theorem advance_zero : g.advance 0 = 0 := by
  simp [advance]

theorem advance_add (m n : Nat) : g.advance (m + n) = g.advance m + g.advance n := by
  simp only [advance, Nat.cast_add]
  ring

theorem advancePen_zero : g.advancePen 0 = g := by
  have hmatrix : (Matrix.shift 0 Scalar.zero).multiply g.textMatrix = g.textMatrix := by
    rw [Matrix.shift_multiply, Unrounded.zero_eq]
    simp
  simp only [advancePen, hmatrix]

/-- The pen moves along its line, so that two moves are one by their sum. -/
theorem advancePen_advancePen (x y : α) : (g.advancePen x).advancePen y = g.advancePen (x + y) := by
  have hmatrix : (Matrix.shift y Scalar.zero).multiply ((Matrix.shift x Scalar.zero).multiply g.textMatrix) =
      (Matrix.shift (x + y) Scalar.zero).multiply g.textMatrix := by
    simp only [Matrix.shift_multiply, Unrounded.zero_eq, Matrix.mk.injEq, true_and]
    constructor <;> ring
  simp only [advancePen, hmatrix]

end GraphicsState

namespace Machine

open GraphicsState Resolution Unrounded

/-- A shift in front of a map leaves the scale of the map as it was. -/
theorem verticalScale_shift (tx ty : α) (m : Matrix α) :
    ((Matrix.shift tx ty).multiply m).verticalScale = m.verticalScale := by
  rw [Matrix.shift_multiply]
  rfl

/-- How wide a text of so many characters is drawn. -/
def drawnWidth (g : GraphicsState α) (count : Nat) : α :=
  toPixels ((count : α) * drawnSize g (g.textMatrix.multiply g.ctm) * glyphRatio * g.horizontalScaling)

theorem drawnWidth_zero (g : GraphicsState α) : drawnWidth g 0 = 0 := by
  simp [drawnWidth, toPixels_zero]

theorem drawnWidth_add (g : GraphicsState α) (m n : Nat) :
    drawnWidth g (m + n) = drawnWidth g m + drawnWidth g n := by
  unfold drawnWidth
  rw [← toPixels_add, Nat.cast_add]
  congr 1
  ring

/-- The width does not depend on where along its line the pen stands. -/
theorem drawnWidth_advancePen (g : GraphicsState α) (x : α) (count : Nat) :
    drawnWidth (g.advancePen x) count = drawnWidth g count := by
  have hscale : (((Matrix.shift x Scalar.zero).multiply g.textMatrix).multiply g.ctm).verticalScale =
      (g.textMatrix.multiply g.ctm).verticalScale := by
    rw [Matrix.multiply_assoc, verticalScale_shift]
  simp only [drawnWidth, drawnSize, advancePen, hscale]

variable (frame : PageFrame α)

theorem width_runOf (g : GraphicsState α) (text : String) (count : Nat) :
    (runOf frame g text count).box.width = drawnWidth g count := rfl

/-- The run of a text shown in a state, if the text is not empty. -/
def shownRuns (g : GraphicsState α) (text : String) : List (TextRun α) :=
  if text.isEmpty then [] else [runOf frame g text text.length]

/-- The runs of texts shown one after another, the first of them in the state given. -/
def runsFrom : GraphicsState α → List String → List (TextRun α)
  | _, [] => []
  | g, text :: texts => shownRuns frame g text ++ runsFrom (g.advancePen (g.advance text.length)) texts

theorem shownRuns_empty (g : GraphicsState α) : shownRuns frame g "" = [] := rfl

theorem shownRuns_of_ne {text : String} (h : text ≠ "") (g : GraphicsState α) :
    shownRuns frame g text = [runOf frame g text text.length] := by
  rw [shownRuns, String.isEmpty_eq_false_iff.mpr h]
  rfl

/-- An empty text moves the pen by nothing, so that it is no exception. -/
theorem emit_eq (s : Machine α) (text : String) :
    s.emit frame text =
      { s.modify (·.advancePen (s.stack.current.advance text.length)) with
        drawn := (shownRuns frame s.stack.current text).reverse ++ s.drawn } := by
  by_cases h : text = ""
  · subst h
    have hpen : s.stack.current.advancePen (s.stack.current.advance "".length) = s.stack.current := by
      rw [String.length_empty, advance_zero, advancePen_zero]
    simp only [modify, GraphicsStack.modify, hpen, shownRuns_empty]
    rfl
  · have hempty : text.isEmpty = false := String.isEmpty_eq_false_iff.mpr h
    rw [shownRuns_of_ne frame h]
    unfold emit
    rw [hempty]
    rfl

/-- Texts shown one after another move the pen as far as their text in one moves it. -/
theorem foldl_emit (texts : List String) (s : Machine α) :
    texts.foldl (emit frame) s =
      { s.modify (·.advancePen (s.stack.current.advance (String.join texts).length)) with
        drawn := (runsFrom frame s.stack.current texts).reverse ++ s.drawn } := by
  induction texts generalizing s with
  | nil =>
    have hpen : s.stack.current.advancePen (s.stack.current.advance (String.join []).length) =
        s.stack.current := by
      rw [String.join_nil, String.length_empty, advance_zero, advancePen_zero]
    simp only [List.foldl_nil, modify, GraphicsStack.modify, hpen]
    rfl
  | cons text texts ih =>
    have hpen : (s.stack.current.advancePen (s.stack.current.advance text.length)).advancePen
        ((s.stack.current.advancePen (s.stack.current.advance text.length)).advance (String.join texts).length) =
          s.stack.current.advancePen (s.stack.current.advance (String.join (text :: texts)).length) := by
      rw [String.join_cons, String.length_append, advance_add]
      exact advancePen_advancePen _ _ _
    rw [List.foldl_cons, ih, emit_eq]
    simp only [modify, GraphicsStack.modify, hpen, runsFrom, List.reverse_append, List.append_assoc]

theorem join_runsFrom (texts : List String) (g : GraphicsState α) :
    String.join ((runsFrom frame g texts).map TextRun.text) = String.join texts := by
  induction texts generalizing g with
  | nil => rfl
  | cons text texts ih =>
    rw [runsFrom, List.map_append, String.join_append, ih, String.join_cons]
    congr 1
    by_cases h : text = ""
    · subst h
      rfl
    · rw [shownRuns_of_ne frame h, List.map_singleton, String.join_cons, String.join_nil, String.append_empty]
      rfl

theorem sum_width_runsFrom (texts : List String) (g : GraphicsState α) :
    ((runsFrom frame g texts).map (·.box.width)).sum = drawnWidth g (String.join texts).length := by
  induction texts generalizing g with
  | nil => exact (drawnWidth_zero g).symm
  | cons text texts ih =>
    have hfirst : ((shownRuns frame g text).map (·.box.width)).sum = drawnWidth g text.length := by
      by_cases h : text = ""
      · subst h
        exact (drawnWidth_zero g).symm
      · rw [shownRuns_of_ne frame h, List.map_singleton, List.sum_singleton, width_runOf]
    rw [runsFrom, List.map_append, List.sum_append, hfirst, ih, drawnWidth_advancePen, String.join_cons,
      String.length_append, drawnWidth_add]

/-- The first run is drawn where the pen stood, since the empty texts in front of it did not move it. -/
theorem head_runsFrom {texts : List String} {g : GraphicsState α} {first : TextRun α} {later : List (TextRun α)}
    (h : runsFrom frame g texts = first :: later) :
    first = runOf frame g first.text first.text.length ∧ first.text ≠ "" := by
  induction texts generalizing g with
  | nil => cases h
  | cons text texts ih =>
    rw [runsFrom] at h
    by_cases hempty : text = ""
    · subst hempty
      rw [shownRuns_empty, List.nil_append, String.length_empty, advance_zero, advancePen_zero] at h
      exact ih h
    · rw [shownRuns_of_ne frame hempty, List.singleton_append, List.cons.injEq] at h
      obtain ⟨rfl, -⟩ := h
      exact ⟨rfl, hempty⟩

theorem runsFrom_eq_nil {texts : List String} {g : GraphicsState α} :
    runsFrom frame g texts = [] ↔ ∀ text ∈ texts, text = "" := by
  induction texts generalizing g with
  | nil => simp [runsFrom]
  | cons text texts ih =>
    rw [runsFrom, List.append_eq_nil_iff, ih, List.forall_mem_cons]
    refine and_congr_left fun _ => ?_
    by_cases h : text = ""
    · subst h
      simp [shownRuns_empty]
    · simp [shownRuns_of_ne frame h, h]

/-- The runs of the pieces of a text are, put together, the run of the text. -/
theorem merge_runsFrom (texts : List String) (g : GraphicsState α) :
    TextRun.merge (runsFrom frame g texts) = shownRuns frame g (String.join texts) := by
  have htext := join_runsFrom frame texts g
  have hwidth := sum_width_runsFrom frame texts g
  cases hruns : runsFrom frame g texts with
  | nil =>
    rw [hruns] at htext
    rw [← htext]
    rfl
  | cons first later =>
    obtain ⟨hfirst, hne⟩ := head_runsFrom frame hruns
    rw [hruns, List.map_cons] at htext
    rw [hruns, List.map_cons, List.sum_cons] at hwidth
    have hjoin : String.join texts ≠ "" := by
      rw [← htext, String.join_cons]
      intro heq
      exact hne (String.append_eq_empty_iff.mp heq).1
    rw [TextRun.merge, htext, hwidth, shownRuns_of_ne frame hjoin, hfirst]
    rfl

section Operations

variable (r : Resolver α) (nesting : Nat) (scope : Scope)

/-- Showing a text leaves the font as it was, so that the pieces of a text are read alike. -/
theorem decoded_emit (s : Machine α) (text : String) (bytes : Bytes) :
    (s.emit frame text).decoded r scope bytes = s.decoded r scope bytes := by
  unfold emit
  split <;> rfl

theorem runAll_show (pieces : List Bytes) (s : Machine α) :
    runAll r frame nesting scope (pieces.map fun bytes => ⟨"Tj", [.string bytes]⟩) s =
      (pieces.map (s.decoded r scope)).foldl (emit frame) s := by
  induction pieces generalizing s with
  | nil => rfl
  | cons bytes pieces ih =>
    have hdecoded : (s.emit frame (s.decoded r scope bytes)).decoded r scope = s.decoded r scope :=
      funext (decoded_emit frame r scope s _)
    have hrest := ih (s.emit frame (s.decoded r scope bytes))
    rw [hdecoded] at hrest
    exact hrest

/-- `TJ` leaves the state that `Tj` leaves when it shows the strings of the array one after another. It draws
the runs that these draw put together, which are none exactly if all the strings are empty as text. -/
theorem run_showPieces (s : Machine α) (items rest : List (Operand α)) :
    let whole := s.run r frame nesting scope ⟨"TJ", .array items :: rest⟩
    let apart := runAll r frame nesting scope
      ((Command.strings items).map fun bytes => ⟨"Tj", [.string bytes]⟩) s
    whole.stack = apart.stack ∧ whole.floor = apart.floor ∧ whole.chain = apart.chain ∧
      ∃ new, apart.runs = s.runs ++ new ∧ whole.runs = s.runs ++ TextRun.merge new ∧
        (new = [] ↔ ∀ bytes ∈ Command.strings items, s.decoded r scope bytes = "") := by
  intro whole apart
  have hapart : apart = _ :=
    (runAll_show frame r nesting scope (Command.strings items) s).trans (foldl_emit frame _ s)
  have hwhole : whole = _ :=
    emit_eq frame s (String.join ((Command.strings items).map (s.decoded r scope)))
  rw [hapart, hwhole]
  refine ⟨rfl, rfl, rfl, runsFrom frame s.stack.current ((Command.strings items).map (s.decoded r scope)),
    ?_, ?_, ?_⟩
  · simp [runs]
  · rw [merge_runsFrom]
    simp [runs]
  · rw [runsFrom_eq_nil, List.forall_mem_map]

end Operations

end Machine

end Marginalia
