import Marginalia.Proofs.Number.Plain
import Marginalia.Proofs.Content.Written
import Marginalia.Proofs.Mark.FontChoice
import Marginalia.Proofs.Mark.Layering

/-!
Running the form that a free text is drawn with. Each of its lines comes out as one run, beneath the one before, and
no wider than the box.
-/

namespace Marginalia

variable {N : Numerals}

theorem Exact.leadingRatio_eq : (GraphicsState.leadingRatio : Exact N) = 6 / 5 := by
  have hr : N.read ⟨false, 12, -1⟩ = (Decimal.mk false 12 (-1)).value :=
    N.read_short _ (by have := N.three_le_places; simp only; omega)
  have hv : (Decimal.mk false 12 (-1)).value = 6 / 5 := by decide +kernel
  exact hr.trans hv

/-- A floor that is clamped from above is not above the number. -/
theorem Extended.floorWithin_le {q : ℚ} (hq : 0 ≤ q) (negative : Bool) (hi : Int) :
    (((finite negative q).floorWithin 0 hi).toNat : ℚ) ≤ q := by
  have hfloor : 0 ≤ q.floor := Rat.le_floor_iff.mpr (by exact_mod_cast hq)
  have hle : (((finite negative q).floorWithin 0 hi).toNat : Int) ≤ q.floor := by
    rw [floorWithin]
    omega
  exact_mod_cast Rat.le_floor_iff.mp hle

namespace MarkWriter

open Document

section Program

variable {α : Type} [Scalar α]

/-- The operations in front of the lines: the box to clip to, the colour and the font. -/
def appearanceOpening (m : Mark α) (width height size : α) : List (Instruction α) :=
  [⟨"q", []⟩, ⟨"re", [.int 0, .int 0, real width, real height]⟩, ⟨"W", []⟩, ⟨"n", []⟩,
    ⟨"rg", colorObjects m.color⟩, ⟨"BT", []⟩, ⟨"Tf", [.nameOf appearanceFontKey, real size]⟩]

/-- Shows a line with its number. An empty one is left out. -/
def showNumbered (font : FontSource) (height size : α) (e : List Char × Nat) : List (Instruction α) :=
  if e.1.isEmpty then [] else showLine font height size e.2 e.1

theorem appearanceProgram_eq (font : FontSource) (m : Mark α) (width height size : α) :
    appearanceProgram font m width height size =
      appearanceOpening m width height (Scalar.greater size minFontSize) ++
        (appearanceLines m width (Scalar.greater size minFontSize)).zipIdx.flatMap
          (showNumbered font height (Scalar.greater size minFontSize)) ++
        [⟨"ET", []⟩, ⟨"Q", []⟩] := by
  simp only [appearanceProgram, List.zipIdx_eq_zip_range', List.range_eq_range']
  rfl

end Program

section Printing

theorem printable_zero : (Object.int 0 : Object (Exact N)).IsPrintable := by
  show inWordRange 0 = true
  decide

theorem printable_one : (Object.int 1 : Object (Exact N)).IsPrintable := by
  show inWordRange 1 = true
  decide

theorem printable_number (x : Exact N) : (real x).IsPrintable := Exact.printable_real _

theorem appearanceOpening_plain (m : Mark (Exact N)) (width height size : Exact N) :
    ∀ i ∈ appearanceOpening m width height size, i.IsPlain := by
  have hkey : (Object.nameOf appearanceFontKey : Object (Exact N)).IsPrintable := by
    show ∀ c ∈ Syntax.ascii appearanceFontKey, ObjectPrinter.isNameByte c = true
    decide
  have hcolor : ∀ v ∈ colorObjects (α := Exact N) m.color, v.IsPrintable := by
    intro v hv
    obtain ⟨x, -, rfl⟩ := List.mem_map.mp hv
    exact printable_number x
  apply Instruction.plain_of_words
  · show ∀ word ∈ ["q", "re", "W", "n", "rg", "BT", "Tf"], Spelling.IsPlainOperator word
    decide
  · simpa [appearanceOpening, printable_zero, printable_number, hkey] using hcolor

theorem showLine_plain (font : FontSource) (height size : Exact N) (i : Nat) (line : List Char) :
    ∀ instruction ∈ showLine font height size i line, instruction.IsPlain := by
  have htext : ∀ bytes, (Object.string bytes true : Object (Exact N)).IsPrintable := by
    intro bytes
    rfl
  apply Instruction.plain_of_words
  · show ∀ word ∈ ["Tm", "Tj"], Spelling.IsPlainOperator word
    decide
  · simp [showLine, printable_zero, printable_one, printable_number, htext]

theorem appearanceClosing_plain : ∀ i ∈ ([⟨"ET", []⟩, ⟨"Q", []⟩] : List (Instruction (Exact N))), i.IsPlain := by
  apply Instruction.plain_of_words
  · show ∀ word ∈ ["ET", "Q"], Spelling.IsPlainOperator word
    decide
  · simp

/-- The program of an appearance can be read where it was written. -/
theorem appearanceProgram_plain (font : FontSource) (m : Mark (Exact N)) (width height size : Exact N) :
    ∀ i ∈ appearanceProgram font m width height size, i.IsPlain := by
  intro i hi
  rw [appearanceProgram_eq] at hi
  rcases List.mem_append.mp hi with hi | hi
  · rcases List.mem_append.mp hi with hi | hi
    · exact appearanceOpening_plain _ _ _ _ i hi
    · obtain ⟨e, -, he⟩ := List.mem_flatMap.mp hi
      unfold showNumbered at he
      split at he
      · cases he
      · exact showLine_plain _ _ _ _ _ i he
  · exact appearanceClosing_plain i hi

end Printing

section Running

variable (view : PageFrame (Exact N)) {r : Resolver (Exact N)} (nesting : Nat) {scope : Scope} {font : FontSource}
  (height : Exact N) {size : Exact N} {s : Machine (Exact N)}

/-- That lines of a size can be shown: the initial map is in force, and the font is selected. -/
structure Poised (size : Exact N) (s : Machine (Exact N)) : Prop where
  ctm : s.stack.current.ctm = .identity
  fontKey : s.stack.current.fontKey = Syntax.ascii appearanceFontKey
  fontSize : s.stack.current.fontSize = size
  scaling : s.stack.current.horizontalScaling = 1

variable (r scope) in
theorem runAll_appearanceOpening (m : Mark (Exact N)) (width size : Exact N) :
    Poised size (Machine.runAll r view nesting scope
        ((appearanceOpening m width height size).map Instruction.readBack) .initial) ∧
      (Machine.runAll r view nesting scope
        ((appearanceOpening m width height size).map Instruction.readBack) .initial).drawn = [] := by
  have hread : (appearanceOpening m width height size).map Instruction.readBack =
      [⟨"q", []⟩, (Instruction.readBack ⟨"re", [.int 0, .int 0, real width, real height]⟩), ⟨"W", []⟩, ⟨"n", []⟩,
        (Instruction.readBack ⟨"rg", colorObjects m.color⟩), ⟨"BT", []⟩,
        ⟨"Tf", [.name (Syntax.ascii appearanceFontKey), Operand.ofObject (Object.readBack (.real size))]⟩] := rfl
  rw [hread]
  simp only [Machine.runAll, List.foldl_cons, List.foldl_nil, Machine.run, Machine.step, Command.ofOperation?,
    Instruction.readBack, Exact.number?_readBack, Option.map_some, Machine.perform]
  exact ⟨⟨rfl, rfl, rfl, Exact.one_eq⟩, rfl⟩

/-- The run that a line with a number comes out as: at the left edge of the form, as far down as its number says. -/
def lineRun (view : PageFrame (Exact N)) (height size : Exact N) (e : List Char × Nat) : TextRun (Exact N) :=
  let anchor := view.toViewer 0 (height - size - (e.2 : Exact N) * (6 / 5 * size))
  ⟨String.ofList e.1, anchor.1, anchor.2 - Resolution.toPixels size,
    Resolution.toPixels ((e.1.length : Exact N) * (3 / 5 * size)), Resolution.toPixels size⟩

/-- With the pen at the start of a line, its text comes out as its run. -/
theorem runOf_poised (hs : Poised size s) (line : List Char) (i : Nat)
    (hmatrix : s.stack.current.textMatrix =
      ⟨1, 0, 0, 1, 0, height - size - (i : Exact N) * size * GraphicsState.leadingRatio⟩) :
    Machine.runOf view s.stack.current (String.ofList line) (String.ofList line).length =
      lineRun view height size (line, i) := by
  have hscale : ∀ y : Exact N, (⟨1, 0, 0, 1, 0, y⟩ : Matrix (Exact N)).verticalScale = 1 := by
    intro y
    simp [Matrix.verticalScale, Exact.sqrt_one]
  have hdown : (i : Exact N) * size * GraphicsState.leadingRatio = i * (6 / 5 * size) := by
    rw [Exact.leadingRatio_eq]
    ring
  have hlength : (line.length : Exact N) * size * (3 / 5) = line.length * (3 / 5 * size) := by ring
  simp only [Machine.runOf, Machine.drawnSize, hmatrix, hs.ctm, hs.fontSize, hs.scaling, multiply_identity, hscale,
    Exact.zero_eq, zero_lt_one, if_true, mul_one, Exact.glyphRatio_eq, hlength, hdown, lineRun, String.length_ofList]

/-- A line that is shown comes out as its run, and another one can be shown behind it. -/
theorem runAll_showLine (hs : Poised size s) {line : List Char} (hne : line ≠ [])
    (htext : r.text scope (Syntax.ascii appearanceFontKey) (font.encode (String.ofList line)) = String.ofList line)
    (i : Nat) :
    Poised size (Machine.runAll r view nesting scope
        ((showLine font height size i line).map Instruction.readBack) s) ∧
      (Machine.runAll r view nesting scope
        ((showLine font height size i line).map Instruction.readBack) s).drawn =
          lineRun view height size (line, i) :: s.drawn := by
  generalize hy : height - size - (i : Exact N) * size * GraphicsState.leadingRatio = y
  have hread : (showLine font height size i line).map Instruction.readBack =
      [⟨"Tm", [.int 1, .int 0, .int 0, .int 1, .int 0, Operand.ofObject (Object.readBack (.real y))]⟩,
        ⟨"Tj", [.string (font.encode (String.ofList line))]⟩] := by
    rw [← hy]
    rfl
  have hmap : Matrix.ofOperands? [.int 1, .int 0, .int 0, .int 1, .int 0,
      Operand.ofObject (Object.readBack (.real y))] = some ⟨1, 0, 0, 1, 0, y⟩ := by
    have hint : ∀ n : Int, (Operand.int n : Operand (Exact N)).number? = some (n : Exact N) := fun _ => rfl
    simp only [Matrix.ofOperands?, Exact.number?_readBack, hint, Option.bind_eq_bind, Option.bind_some,
      Option.pure_def, Int.cast_one, Int.cast_zero]
  rw [hread]
  simp only [Machine.runAll, List.foldl_cons, List.foldl_nil, Machine.run, Machine.step, Command.ofOperation?,
    hmap, Option.map_some, Command.stringAt?, List.getElem?_cons_zero, Machine.perform]
  generalize hset : s.modify (·.setTextMatrix ⟨1, 0, 0, 1, 0, y⟩) = set
  have hposed : Poised size set := by
    rw [← hset]
    exact ⟨hs.ctm, hs.fontKey, hs.fontSize, hs.scaling⟩
  have hmatrix : set.stack.current.textMatrix =
      ⟨1, 0, 0, 1, 0, height - size - (i : Exact N) * size * GraphicsState.leadingRatio⟩ := by
    rw [← hset, hy]
    rfl
  have hdrawn : set.drawn = s.drawn := by
    rw [← hset]
    rfl
  have hrun := runOf_poised view height hposed line i hmatrix
  have hempty : (String.ofList line).isEmpty = false := by simpa using hne
  rw [Machine.decoded, hposed.fontKey, htext, Machine.emit, if_neg (by simp [hempty])]
  exact ⟨⟨hposed.ctm, hposed.fontKey, hposed.fontSize, hposed.scaling⟩, congrArg₂ List.cons hrun hdrawn⟩

/-- Lines that are shown come out as their runs in order, but for empty ones. -/
theorem runAll_showNumbered {es : List (List Char × Nat)}
    (htext : ∀ e ∈ es, e.1 ≠ [] → r.text scope (Syntax.ascii appearanceFontKey)
      (font.encode (String.ofList e.1)) = String.ofList e.1) (hs : Poised size s) :
    (Machine.runAll r view nesting scope
        ((es.flatMap (showNumbered font height size)).map Instruction.readBack) s).drawn =
      ((es.filter fun e => !e.1.isEmpty).map (lineRun view height size)).reverse ++ s.drawn := by
  induction es generalizing s with
  | nil => rfl
  | cons e es ih =>
    have hrest := fun e' he' => htext e' (List.mem_cons_of_mem e he')
    rw [List.flatMap_cons, List.map_append, Machine.runAll_append, showNumbered, List.filter_cons]
    by_cases hne : e.1 = []
    · simp only [hne, List.isEmpty_nil, Bool.not_true, Bool.false_eq_true, if_true, if_false]
      exact ih hrest hs
    · have hempty : e.1.isEmpty = false := by simpa using hne
      obtain ⟨hposed, hdrawn⟩ := runAll_showLine view nesting height hs hne
        (htext e (by simp) hne) e.2
      simp only [hempty, Bool.not_false, Bool.false_eq_true, if_true, if_false]
      rw [ih hrest hposed, hdrawn, List.map_cons, List.reverse_cons, List.append_assoc, List.singleton_append]

end Running

section Form

variable {α : Type} [Scalar α] {d : Document α}

/-- The entries of a form with a font. -/
def formEntries (rect : PageRect α) (fontId : ObjectId) : Dict α :=
  Dict.ofList [
    ("Type", .nameOf "XObject"),
    ("Subtype", .nameOf "Form"),
    ("BBox", .array [.int 0, .int 0, real rect.width, real rect.height]),
    ("Resources", .ofEntries [("Font", .ofEntries [(appearanceFontKey, .ref fontId)])])]

/-- That a document has a form that a free text is drawn with, and its font. -/
structure HasForm (d : Document α) (font : FontSource) (m : Mark α) (rect : PageRect α) (id fontId : ObjectId) :
    Prop where
  form : d.stored? id = some (.streamOf (formEntries rect fontId)
    (printProgram (appearanceProgram font m rect.width rect.height (Resolution.fontPoints m.fontSize))))
  font : ∃ d' : Document α, d.stored? fontId = some (.dict (font.dictionary d' m.bold).2)

/-- A free text is added with a form and a font of its own. -/
theorem addAppearance_hasForm (d : Document α) (font : FontSource) (m : Mark α) (rect : PageRect α) :
    let drawn := addAppearance d font m rect (Resolution.fontPoints m.fontSize)
    ∃ fontId, HasForm drawn.1 font m rect drawn.2 fontId ∧ Fresh d.maxNumber drawn.1 drawn.2 ∧
      Fresh d.maxNumber drawn.1 fontId := by
  have hgrows := font.dictionary_grows d m.bold
  let known := (font.dictionary d m.bold).1.add (.dict (font.dictionary d m.bold).2)
  have hfont : Fresh d.maxNumber known.1 known.2 := .add hgrows.maxNumber _
  have hlow : d.maxNumber ≤ known.1.maxNumber := Nat.le_trans hgrows.maxNumber (Nat.le_succ _)
  obtain ⟨hkept, hstored⟩ := hfont.grow (.add _ known.1 (.streamOf (formEntries rect known.2)
    (printProgram (appearanceProgram font m rect.width rect.height (Resolution.fontPoints m.fontSize)))))
  refine ⟨known.2, ⟨stored?_add_self _ _, d, ?_⟩, .add hlow _, hkept⟩
  exact hstored.trans (stored?_add_self _ _)

theorem get?_formEntries (rect : PageRect α) (fontId : ObjectId) :
    (formEntries rect fontId).get? "Resources" =
        some (.ofEntries [("Font", .ofEntries [(appearanceFontKey, .ref fontId)])]) ∧
      (formEntries rect fontId).get? "Filter" = none := by
  constructor <;>
    simp +decide only [formEntries, Dict.get?_ofList_cons, Dict.get?_ofList_nil, if_true, if_false, Option.none_or,
      Option.or_none]

namespace HasForm

variable {font : FontSource} {m : Mark α} {rect : PageRect α} {id fontId : ObjectId}

/-- The stream of the form, which is stored as it is. -/
theorem getStream? (h : HasForm d font m rect id fontId) : ∃ (entries : Dict α) (data : Bytes),
    d.getStream? id = some (entries, data) ∧ StreamData.plain? entries data = some data ∧
    data = printProgram (appearanceProgram font m rect.width rect.height (Resolution.fontPoints m.fontSize)) ∧
    entries.get? "Resources" =
      some (.ofEntries [("Font", .ofEntries [(appearanceFontKey, .ref fontId)])]) := by
  obtain ⟨hresources, hfilter⟩ := get?_formEntries rect fontId
  refine ⟨_, _, getStream?_of_stored? h.form, ?_, rfl, ?_⟩
  · have hnone : ((formEntries rect fontId).set "Length" (.int (printProgram (appearanceProgram font m rect.width
        rect.height (Resolution.fontPoints m.fontSize))).length)).has "Filter" = false := by
      rw [Dict.has, Dict.get?_set_of_ne _ _ (by decide), hfilter]
      rfl
    simp only [StreamData.plain?, StreamData.plain, hnone, Bool.false_eq_true, if_false]
    rfl
  · rw [Dict.get?_set_of_ne _ _ (by decide), hresources]

/-- What is shown in the form is read as its font encodes it. -/
theorem shownText (h : HasForm d font m rect id fontId) (bytes : Bytes) :
    d.shownText (.form id) (Syntax.ascii appearanceFontKey) bytes = decodeShown font.textEncoding bytes := by
  obtain ⟨entries, data, hstream, -, -, hresources⟩ := h.getStream?
  obtain ⟨d', hstored⟩ := h.font
  have hin : d.resources? (.form id) =
      some (Dict.ofList [("Font", .ofEntries [(appearanceFontKey, .ref fontId)])]) := by
    simp only [resources?, hstream, hresources, Option.bind_eq_bind, Option.bind_some]
    rfl
  have hsingle : ∀ (key : String) (v : Object α), (Dict.ofList [(key, v)]).get? key = some v := by
    intro key v
    rw [Dict.get?_ofList_cons, Dict.get?_ofList_nil, if_pos rfl, Option.none_or]
  have hkey : (Dict.ofList [(appearanceFontKey, (.ref fontId : Object α))]).find?
      (Syntax.ascii appearanceFontKey) = some (.ref fontId) := hsingle _ _
  have hfont : d.font? (.form id) (Syntax.ascii appearanceFontKey) = some (font.dictionary d' m.bold).2 := by
    simp only [font?, resource?, hin, hsingle, Object.ofEntries, hkey, Option.bind_eq_bind, Option.bind_some, deref,
      Object.dict?, get?_of_stored? hstored rfl, Option.getD_some]
  simp only [Document.shownText, hfont, FontSource.fontEncoding_dictionary]

/-- In a document that has the same form and font under their numbers, a free text is drawn with them. -/
theorem kept (h : HasForm d font m rect id fontId) {d' : Document α} (hid : d'.stored? id = d.stored? id)
    (hfont : d'.stored? fontId = d.stored? fontId) : HasForm d' font m rect id fontId where
  form := hid.trans h.form
  font := by
    obtain ⟨base, hstored⟩ := h.font
    exact ⟨base, hfont.trans hstored⟩

end HasForm

end Form

section Whole

variable {d : Document (Exact N)} {font : FontSource} {m : Mark (Exact N)} {frame view : PageFrame (Exact N)}
  {box : ViewerBox (Exact N)}

/-- The runs of the lines of a free text that are not empty. -/
def lineRuns (view : PageFrame (Exact N)) (m : Mark (Exact N)) (rect : PageRect (Exact N)) :
    List (TextRun (Exact N)) :=
  ((appearanceLines m rect.width (drawnSize m)).zipIdx.filter fun e => !e.1.isEmpty).map
    (lineRun view rect.height (drawnSize m))

/-- That a font has a line, and in the line something to be read. -/
def ShowsLine (font : FontSource) (line : List Char) : Prop :=
  font.supports (String.ofList line) = true ∧ (line ≠ [] → ∃ c ∈ line, c ≠ '\uFFFD' ∧ c ≠ '\u0000')

theorem ShowsLine.decodeShown {line : List Char} (hf : font.IsReadable) (h : ShowsLine font line) (hne : line ≠ []) :
    Document.decodeShown font.textEncoding (font.encode (String.ofList line)) = String.ofList line := by
  apply FontSource.decodeShown_encode hf h.1
  apply Bool.of_not_eq_false
  intro hm
  obtain ⟨c, hc, hsub, hnul⟩ := h.2 hne
  rw [String.toList_ofList] at hm
  rcases isMeaningful_eq_false.mp hm c hc with rfl | rfl
  · exact hsub rfl
  · exact hnul rfl

/-- Running a form from the initial state draws its lines. -/
theorem HasForm.runs {rect : PageRect (Exact N)} {id fontId : ObjectId} (h : HasForm d font m rect id fontId)
    (hf : font.IsReadable) (hlines : ∀ line ∈ appearanceLines m rect.width (drawnSize m), ShowsLine font line)
    (view : PageFrame (Exact N)) (nesting : Nat) : ∃ entries data, d.getStream? id = some (entries, data) ∧
      StreamData.plain? entries data = some data ∧
      (Machine.runAll d.resolver view nesting (.form id) (decodeOperations data) .initial).runs =
        lineRuns view m rect := by
  obtain ⟨entries, data, hstream, hplain, rfl, -⟩ := h.getStream?
  refine ⟨entries, _, hstream, hplain, ?_⟩
  have htext : ∀ e ∈ (appearanceLines m rect.width (drawnSize m)).zipIdx, e.1 ≠ [] →
      d.resolver.text (.form id) (Syntax.ascii appearanceFontKey) (font.encode (String.ofList e.1)) =
        String.ofList e.1 := by
    intro e he hne
    have hline := hlines e.1 (List.fst_mem_of_mem_zipIdx he)
    exact (h.shownText _).trans (hline.decodeShown hf hne)
  obtain ⟨hposed, hdrawn⟩ := runAll_appearanceOpening view d.resolver nesting (.form id) rect.height m rect.width
    (drawnSize m)
  rw [decodeOperations_printProgram (appearanceProgram_plain _ _ _ _ _), appearanceProgram_eq, List.map_append,
    List.map_append, Machine.runAll_append, Machine.runAll_append, Machine.runs, runAll_closing]
  have hall := runAll_showNumbered view nesting rect.height htext hposed
  rw [hdrawn, List.append_nil] at hall
  exact (congrArg List.reverse hall).trans (List.reverse_reverse _)

/-- As many characters as are put on a line have room in the width, if one has. -/
theorem charsPerLine_le {width size : Exact N} (hsize : 0 < size) (hroom : 3 / 5 * size ≤ width) :
    (charsPerLine width size : Exact N) * (3 / 5 * size) ≤ width := by
  have hglyph : (0 : Exact N) < 3 / 5 * size := by positivity
  have hquotient : width / (size * GraphicsState.glyphRatio) = width / (3 / 5 * size) := by
    rw [Exact.glyphRatio_eq, mul_comm]
  have hone : 1 ≤ width / (3 / 5 * size) := (le_div_iff₀ hglyph).mpr (by rwa [one_mul])
  have hfloor : (((Scalar.exact (width / (3 / 5 * size))).floorWithin 0 (2 ^ 64 - 1)).toNat : Exact N) ≤
      width / (3 / 5 * size) :=
    Extended.floorWithin_le (le_trans zero_le_one hone) _ _
  rw [← le_div_iff₀ hglyph, charsPerLine, hquotient, Nat.cast_max, Nat.cast_one]
  exact max_le hone hfloor

/-- No line is wider than the box, if a character is not. -/
theorem width_lineRuns {rect : PageRect (Exact N)} (hroom : 3 / 5 * drawnSize m ≤ rect.width) :
    ∀ run ∈ lineRuns view m rect, run.box.width ≤ Resolution.toPixels rect.width := by
  intro run hrun
  obtain ⟨e, he, rfl⟩ := List.mem_map.mp hrun
  have hsize : 0 < drawnSize m := by
    have hleast : (0 : Exact N) < minFontSize := by
      unfold minFontSize
      norm_num
    rw [drawnSize, Exact.greater_eq]
    exact lt_max_of_lt_right hleast
  have hlength : e.1.length ≤ charsPerLine rect.width (drawnSize m) :=
    Wrapping.length_of_mem_lines (charsPerLine_pos _ _) (List.fst_mem_of_mem_zipIdx (List.mem_filter.mp he).1)
  have hglyph : (0 : Exact N) ≤ 3 / 5 * drawnSize m := by positivity
  have hcount : (e.1.length : Exact N) ≤ charsPerLine rect.width (drawnSize m) := by exact_mod_cast hlength
  have hwidth : (e.1.length : Exact N) * (3 / 5 * drawnSize m) ≤ rect.width :=
    (mul_le_mul_of_nonneg_right hcount hglyph).trans (charsPerLine_le hsize hroom)
  simp only [lineRun, Exact.toPixels_eq]
  linarith

/-- A free text is added with a form that shows its lines: run from the initial state, in whatever document has what
was added, the form draws a run for each line that is not empty, the runs one beneath the other and, if the box has
room for a character, no wider than the box. -/
theorem addFreeText_shownLines (d : Document (Exact N)) (page : ObjectId) (frame : PageFrame (Exact N))
    (m : Mark (Exact N)) (box : ViewerBox (Exact N))
    (hlines : ∀ font, FontChain.default.resolve m.fontFamily m.content = .ok font →
      ∀ line ∈ appearanceLines m (frame.rectToPage box).width (drawnSize m), ShowsLine font line) :
    ∃ d' id form, addFreeText d .default page frame m box = .ok (d', id) ∧
      d'.stored? id = some (.dict (freeTextEntries page frame m box form)) ∧
      ∀ d'' : Document (Exact N), (∀ i, Fresh d.maxNumber d' i → d''.stored? i = d'.stored? i) →
        ∀ (view : PageFrame (Exact N)) (nesting : Nat), ∃ entries data,
          d''.getStream? form = some (entries, data) ∧ StreamData.plain? entries data = some data ∧
          (Machine.runAll d''.resolver view nesting (.form form) (decodeOperations data) .initial).runs =
            lineRuns view m (frame.rectToPage box) ∧
          (3 / 5 * drawnSize m ≤ (frame.rectToPage box).width → ∀ run ∈ lineRuns view m (frame.rectToPage box),
            run.box.width ≤ Resolution.toPixels (frame.rectToPage box).width) := by
  obtain ⟨font, hfont⟩ := FontChain.default_resolve m.fontFamily m.content
  obtain ⟨fontId, hform, hid, hfontId⟩ := addAppearance_hasForm d font m (frame.rectToPage box)
  let drawn := addAppearance d font m (frame.rectToPage box) (Resolution.fontPoints m.fontSize)
  have hgrows : Grows drawn.1 (addFreeTextIn d font page frame m box).1 := .add _ _ _
  obtain ⟨hidNew, hidKept⟩ := hid.grow hgrows
  obtain ⟨hfontNew, hfontKept⟩ := hfontId.grow hgrows
  refine ⟨_, _, drawn.2, addFreeText_resolve hfont d page frame box, stored?_add_self _ _, ?_⟩
  intro d'' hkept view nesting
  have hsame : HasForm d'' font m (frame.rectToPage box) drawn.2 fontId :=
    hform.kept ((hkept _ hidNew).trans hidKept) ((hkept _ hfontNew).trans hfontKept)
  have hread := FontChain.default_readable font (FontChain.mem_of_resolve hfont)
  obtain ⟨entries, data, hstream, hplain, hruns⟩ := hsame.runs hread (hlines font hfont) view nesting
  exact ⟨entries, data, hstream, hplain, hruns, width_lineRuns⟩

/-- An empty paragraph takes up a line, and a word that has no room starts another. -/
theorem addFreeText_shownLines_note :
    (∀ font, FontChain.default.resolve "Helvetica" "ab\n\ncdef gh" = .ok font →
      ∀ line ∈ plainNoteLines "ab\n\ncdef gh", ShowsLine font line) ∧
    ∃ (d' : Document (Exact .plain)) (id form : ObjectId) (entries : Dict (Exact .plain)) (data : Bytes),
      addFreeText .empty .default ⟨3, 0⟩ plainFrame (plainNote "ab\n\ncdef gh") (plainNote "ab\n\ncdef gh").box =
        .ok (d', id) ∧
      d'.getStream? form = some (entries, data) ∧
      (Machine.runAll d'.resolver ⟨0, 0, 30⟩ 32 (.form form) (decodeOperations data) .initial).runs.map
          (fun run => (run.text, run.box.x, run.box.y)) =
        [("ab", 0, 0), ("cdef", 0, 168 / 5), ("gh", 0, 252 / 5)] := by
  have hlines : plainNoteLines "ab\n\ncdef gh" = ["ab", "", "cdef", "gh"].map String.toList := by decide +kernel
  have hresolve : FontChain.default.resolve "Helvetica" "ab\n\ncdef gh" = .ok koreanFont := by decide
  have hshown : ∀ font, FontChain.default.resolve "Helvetica" "ab\n\ncdef gh" = .ok font →
      ∀ line ∈ plainNoteLines "ab\n\ncdef gh", ShowsLine font line := by
    intro font hfont line hline
    obtain rfl := Except.ok.inj (hresolve.symm.trans hfont)
    rw [hlines] at hline
    simp only [List.map_cons, List.map_nil, List.mem_cons, List.not_mem_nil, or_false] at hline
    rcases hline with rfl | rfl | rfl | rfl
    · exact ⟨by decide, fun _ => ⟨'a', by decide⟩⟩
    · exact ⟨by decide, fun h => absurd rfl h⟩
    · exact ⟨by decide, fun _ => ⟨'c', by decide⟩⟩
    · exact ⟨by decide, fun _ => ⟨'g', by decide⟩⟩
  obtain ⟨d', id, form, hadd, -, hruns⟩ := addFreeText_shownLines .empty ⟨3, 0⟩ plainFrame
    (plainNote "ab\n\ncdef gh") (plainNote "ab\n\ncdef gh").box hshown
  obtain ⟨entries, data, hstream, -, hdrawn, -⟩ := hruns d' (fun _ _ => rfl) ⟨0, 0, 30⟩ 32
  refine ⟨hshown, d', id, form, entries, data, hadd, hstream, ?_⟩
  rw [hdrawn]
  decide +kernel

end Whole

end MarkWriter

end Marginalia
