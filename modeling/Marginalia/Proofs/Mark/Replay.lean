import Marginalia.Proofs.Number.Exact
import Marginalia.Graphics.Machine
import Marginalia.Proofs.Content.Program
import Marginalia.Proofs.Font.Shown
import Marginalia.Proofs.Geometry.Crossing
import Marginalia.Proofs.Mark.Drawing

/-!
Running the program that recognised text was drawn with. Where the initial map is in force, every text
comes out as one run in its box.
-/

namespace Marginalia

theorem Decimal.value_of_whole {d : Decimal} (h : 0 ≤ d.exponent) : d.value = (d.whole : ℚ) := by
  simp only [Decimal.whole, Decimal.value, Decimal.magnitude, h, if_true]
  split <;> push_cast <;> rfl

namespace Exact

variable {N : Numerals}

/-- A number is read where it was written. -/
theorem number?_readBack (x : Exact N) :
    (Operand.ofObject (Object.readBack (.real x))).number? = some x := by
  have hn : Scalar.numeral x = some (N.write x) := rfl
  simp only [Object.readBack, hn]
  split
  · rename_i hexp
    exact congrArg some (N.read_write x hexp)
  · rename_i hexp
    obtain ⟨n, -, hvalue, hx⟩ := N.write_whole x (Int.not_lt.mp hexp)
    have hcast : (((N.write x).whole : Int) : ℚ) = x := by
      rw [← Decimal.value_of_whole (Int.not_lt.mp hexp), hvalue, hx]
    exact congrArg some hcast

theorem printable_real (x : Exact N) : (Object.real x).IsPrintable := by
  refine ⟨N.write x, rfl, fun hexp => ?_⟩
  obtain ⟨n, hn, hvalue, -⟩ := N.write_whole x hexp
  rw [Decimal.value_of_whole hexp] at hvalue
  have hint : (N.write x).whole = n := by exact_mod_cast hvalue
  rw [hint]
  exact hn

end Exact

namespace Machine

section Draws

variable {α : Type}

/-- That a machine has drawn some runs more and has a state in force with the same map, and is the same
otherwise. -/
structure Draws (s s' : Machine α) (new : List (TextRun α)) : Prop where
  ctm : s'.stack.current.ctm = s.stack.current.ctm
  saved : s'.stack.saved = s.stack.saved
  floor : s'.floor = s.floor
  chain : s'.chain = s.chain
  drawn : s'.drawn = new.reverse ++ s.drawn

theorem Draws.refl (s : Machine α) : Draws s s [] := ⟨rfl, rfl, rfl, rfl, rfl⟩

theorem Draws.trans {s s' s'' : Machine α} {new new' : List (TextRun α)} (h : Draws s s' new)
    (h' : Draws s' s'' new') : Draws s s'' (new ++ new') where
  ctm := h'.ctm.trans h.ctm
  saved := h'.saved.trans h.saved
  floor := h'.floor.trans h.floor
  chain := h'.chain.trans h.chain
  drawn := by rw [h'.drawn, h.drawn, List.reverse_append, List.append_assoc]

end Draws

variable {α : Type} [Scalar α]

theorem runAll_append (r : Resolver α) (frame : PageFrame α) (nesting : Nat) (scope : Scope)
    (ops ops' : List (Operation α)) (s : Machine α) :
    runAll r frame nesting scope (ops ++ ops') s =
      runAll r frame nesting scope ops' (runAll r frame nesting scope ops s) :=
  List.foldl_append

end Machine

namespace MarkWriter

variable {N : Numerals} {m : Mark (Exact N)} {box : ViewerBox (Exact N)} {frame : PageFrame (Exact N)}

/-- The run that a text in a box comes out as. -/
def shownRun (m : Mark (Exact N)) (box : ViewerBox (Exact N)) : TextRun (Exact N) :=
  let size := Resolution.toPoints box.height
  ⟨m.content, box.x, box.y, Resolution.toPixels ((m.content.length : Exact N) * size *
    GraphicsState.glyphRatio * stretch m.content box.width size), box.height⟩

/-- A text in a box that has a width fills it. -/
theorem shownRun_eq (hw : 0 < box.width) (hh : 0 < box.height) (hc : m.content ≠ "") :
    shownRun m box = ⟨m.content, box⟩ := by
  have hlen : (0 : Exact N) < (m.content.length : Exact N) := by
    have hpos : 0 < m.content.length := by
      rw [Nat.pos_iff_ne_zero]
      simpa using hc
    exact Nat.cast_pos.mpr hpos
  have hnat : (0 : Exact N) < m.content.length * (box.height * (3 / 4)) * (3 / 5) := by positivity
  have hwidth : (m.content.length : Exact N) * (box.height * (3 / 4)) * (3 / 5) *
      (box.width * (3 / 4) / (m.content.length * (box.height * (3 / 4)) * (3 / 5))) * (4 / 3) =
      box.width := by
    rw [mul_div_cancel₀ _ hnat.ne']
    ring
  simp only [shownRun, stretch, Exact.toPoints_eq, Exact.toPixels_eq, Exact.glyphRatio_eq,
    Exact.zero_eq, hnat, hw, if_true, hwidth]

theorem multiply_identity (x y : Exact N) :
    (⟨1, 0, 0, 1, x, y⟩ : Matrix (Exact N)).multiply .identity = ⟨1, 0, 0, 1, x, y⟩ := by
  simp [Matrix.multiply, Matrix.identity]

/-- The state that a text in a box is shown in, with a map in force. -/
def shownState (ctm : Matrix (Exact N)) (frame : PageFrame (Exact N)) (m : Mark (Exact N))
    (box : ViewerBox (Exact N)) : GraphicsState (Exact N) :=
  let start := frame.toPage box.x box.bottom
  let size := Resolution.toPoints box.height
  { GraphicsState.initial with
    ctm := ctm
    textMatrix := ⟨1, 0, 0, 1, start.1, start.2⟩
    fontSize := size
    horizontalScaling := stretch m.content box.width size }

/-- The run that a text in a box comes out as with a map in force. -/
def drawnRun (ctm : Matrix (Exact N)) (frame : PageFrame (Exact N)) (m : Mark (Exact N))
    (box : ViewerBox (Exact N)) : TextRun (Exact N) :=
  Machine.runOf frame (shownState ctm frame m box) m.content m.content.length

/-- A run depends on nothing of a state but what is set up for it, and the map. -/
theorem runOf_eq {g : GraphicsState (Exact N)}
    (hmatrix : g.textMatrix =
      ⟨1, 0, 0, 1, (frame.toPage box.x box.bottom).1, (frame.toPage box.x box.bottom).2⟩)
    (hsize : g.fontSize = Resolution.toPoints box.height)
    (hscaling : g.horizontalScaling = stretch m.content box.width (Resolution.toPoints box.height)) :
    Machine.runOf frame g m.content m.content.length = drawnRun g.ctm frame m box := by
  simp only [drawnRun, Machine.runOf, Machine.drawnSize, hmatrix, hsize, hscaling]
  rfl

/-- Where the initial map is in force a text comes out in its box. -/
theorem drawnRun_identity (frame : PageFrame (Exact N)) (m : Mark (Exact N)) (box : ViewerBox (Exact N)) :
    drawnRun .identity frame m box = shownRun m box := by
  have hscale : (⟨1, 0, 0, 1, (frame.toPage box.x box.bottom).1,
      (frame.toPage box.x box.bottom).2⟩ : Matrix (Exact N)).verticalScale = 1 := by
    simp [Matrix.verticalScale, Exact.sqrt_one]
  have hbottom : box.bottom - box.height = box.y := add_sub_cancel_right _ _
  have hheight : box.height * (3 / 4) * (4 / 3) = box.height := by ring
  simp only [drawnRun, shownState, Machine.runOf, multiply_identity, Machine.drawnSize, hscale,
    PageFrame.toViewer_toPage, shownRun, Exact.zero_eq, zero_lt_one, if_true, mul_one,
    Exact.toPixels_eq, Exact.toPoints_eq, hheight, hbottom]

/-- What shows a text in a font, as it is read. -/
theorem readBack_shown (font : FontSource) (name : String) :
    (shown font name frame m box).map Instruction.readBack =
      [⟨"Tf", [.name (Syntax.ascii name), Operand.ofObject (Object.readBack (.real (Resolution.toPoints box.height)))]⟩,
        ⟨"Tz", [Operand.ofObject (Object.readBack (.real (stretch m.content box.width (Resolution.toPoints box.height) * ((100 : Nat) : Exact N))))]⟩,
        ⟨"Tm", [.int 1, .int 0, .int 0, .int 1,
          Operand.ofObject (Object.readBack (.real (frame.toPage box.x box.bottom).1)),
          Operand.ofObject (Object.readBack (.real (frame.toPage box.x box.bottom).2))]⟩,
        ⟨"Tj", [.string (font.encode m.content)]⟩] := rfl

/-- A text that is shown comes out as its run with the map in force. -/
theorem runAll_shown (frame : PageFrame (Exact N)) (nesting : Nat) {r : Resolver (Exact N)} {scope : Scope}
    (s : Machine (Exact N)) {font : FontSource} {name : String} (box : ViewerBox (Exact N))
    (htext : r.text scope (Syntax.ascii name) (font.encode m.content) = m.content)
    (hc : m.content ≠ "") :
    s.Draws (Machine.runAll r frame nesting scope ((shown font name frame m box).map
      Instruction.readBack) s) [drawnRun s.stack.current.ctm frame m box] := by
  rw [readBack_shown]
  have hpercent : stretch m.content box.width (Resolution.toPoints box.height) *
      ((100 : Nat) : Exact N) / ((100 : Nat) : Exact N) =
      stretch m.content box.width (Resolution.toPoints box.height) := by
    have : ((100 : Nat) : Exact N) ≠ 0 := by norm_num
    field_simp
  have hmap : ∀ x y : Exact N, Matrix.ofOperands? [.int 1, .int 0, .int 0, .int 1,
      Operand.ofObject (Object.readBack (.real x)), Operand.ofObject (Object.readBack (.real y))] =
      some ⟨1, 0, 0, 1, x, y⟩ := by
    intro x y
    have hint : ∀ n : Int, (Operand.int n : Operand (Exact N)).number? = some (n : Exact N) :=
      fun _ => rfl
    simp only [Matrix.ofOperands?, Exact.number?_readBack, hint, Option.bind_eq_bind,
      Option.bind_some, Option.pure_def, Int.cast_one, Int.cast_zero]
  have hne : m.content.isEmpty = false := by simpa using hc
  simp only [Machine.runAll, List.foldl_cons, List.foldl_nil, Machine.run, Machine.step,
    Command.ofOperation?, Exact.number?_readBack, Option.map_some, hmap, Command.oneNumber?,
    Command.stringAt?, List.head?_cons, Option.bind_some, List.getElem?_cons_zero, Machine.perform,
    hpercent]
  generalize hset : ((s.modify _).modify _).modify _ = set
  have hstate : set.stack.current.ctm = s.stack.current.ctm ∧ set.stack.current.textMatrix =
        ⟨1, 0, 0, 1, (frame.toPage box.x box.bottom).1, (frame.toPage box.x box.bottom).2⟩ ∧
      set.stack.current.fontSize = Resolution.toPoints box.height ∧
      set.stack.current.horizontalScaling =
        stretch m.content box.width (Resolution.toPoints box.height) ∧
      set.stack.current.fontKey = Syntax.ascii name := by
    rw [← hset]
    exact ⟨rfl, rfl, rfl, rfl, rfl⟩
  obtain ⟨hctm, hmatrix, hsize, hscaling, hkey⟩ := hstate
  have hdecoded : set.decoded r scope (font.encode m.content) = m.content := by
    rw [Machine.decoded, hkey, htext]
  have hrun := runOf_eq (m := m) hmatrix hsize hscaling
  rw [hctm] at hrun
  rw [hdecoded]
  simp only [Machine.emit, hne, Bool.false_eq_true, if_false, hrun]
  rw [← hset]
  exact ⟨rfl, rfl, rfl, rfl, rfl⟩

/-- That the font found for a text can show it so that it is read back. -/
def Legible (chain : FontChain) (m : Mark (Exact N)) : Prop :=
  ∀ font, chain.resolve m.fontFamily m.content = .ok font →
    font.supports m.content = true ∧ Document.isMeaningful m.content.toList = true

/-- The texts that are drawn, with the boxes that they are drawn in. -/
def drawnTexts (o : SaveOptions (Exact N)) (ms : List (Mark (Exact N))) :
    List (Mark (Exact N) × ViewerBox (Exact N)) :=
  (ms.map fun m => (m, m.box.unscaled o.effectiveScale)).filter fun e => !isLeftOut e.1 e.2

theorem drawnTexts_cons (o : SaveOptions (Exact N)) (m : Mark (Exact N)) (ms : List (Mark (Exact N))) :
    drawnTexts o (m :: ms) = if isLeftOut m (m.box.unscaled o.effectiveScale) then drawnTexts o ms
      else (m, m.box.unscaled o.effectiveScale) :: drawnTexts o ms := by
  simp only [drawnTexts, List.map_cons, List.filter_cons, Bool.not_eq_true']
  cases isLeftOut m (m.box.unscaled o.effectiveScale) <;> rfl

/-- Running the program that texts were drawn with draws them again with the map in force, if the names of
its fonts stand for these fonts. -/
theorem plan_runAll {o : SaveOptions (Exact N)} (nesting : Nat) {r : Resolver (Exact N)} {scope : Scope}
    (hread : ∀ f ∈ o.fonts.candidates, f.IsReadable)
    (hfamily : ∀ f ∈ o.fonts.candidates, ∀ g ∈ o.fonts.candidates, f.family = g.family → f = g)
    {fonts fonts' : List FontSource} {ms : List (Mark (Exact N))} {program : List (Instruction (Exact N))}
    (hfonts : ∀ f ∈ fonts, f ∈ o.fonts.candidates)
    (hp : plan o frame fonts ms = .ok (fonts', program))
    (htext : ∀ i f bytes, fonts'[i]? = some f →
      r.text scope (Syntax.ascii (fontName i)) bytes = Document.decodeShown f.textEncoding bytes)
    (hms : ∀ m ∈ ms, isLeftOut m (m.box.unscaled o.effectiveScale) = true ∨ Legible o.fonts m)
    (s : Machine (Exact N)) :
    s.Draws (Machine.runAll r frame nesting scope (program.map Instruction.readBack) s)
      ((drawnTexts o ms).map fun e => drawnRun s.stack.current.ctm frame e.1 e.2) := by
  induction ms generalizing fonts program s with
  | nil =>
    cases hp
    exact .refl s
  | cons m ms ih =>
    have hrest : ∀ m ∈ ms, isLeftOut m (m.box.unscaled o.effectiveScale) = true ∨ Legible o.fonts m :=
      fun m' hm' => hms m' (by simp [hm'])
    rw [drawnTexts_cons]
    rcases plan_cons hp with ⟨hout, hp⟩ | ⟨hout, font, rest, hres, hplan, rfl⟩
    · rw [if_pos hout]
      exact ih hfonts hp hrest s
    · have hmem := FontChain.mem_of_resolve hres
      obtain ⟨f, hget, hf, hin⟩ := addFont_get fonts font
      have hfont : f = font := by
        rcases hin with hin | rfl
        · exact hfamily f (hfonts f hin) font hmem hf
        · rfl
      subst hfont
      have hadded : ∀ g ∈ (addFont fonts f).1, g ∈ o.fonts.candidates := by
        intro g hg
        rcases addFont_mem hg with hg | rfl
        · exact hfonts g hg
        · exact hmem
      have hplace : fonts'[(addFont fonts f).2]? = some f := by
        obtain ⟨tail, rfl⟩ := plan_prefix hplan
        rw [List.getElem?_append_left (List.getElem?_eq_some_iff.mp hget).1, hget]
      have hne : m.content ≠ "" := by
        intro he
        simp [isLeftOut, he] at hout
      have hlegible : Legible o.fonts m := (hms m (by simp)).resolve_left (by simp [hout])
      obtain ⟨hsupports, hmeaning⟩ := hlegible f hres
      have hdecoded := FontSource.decodeShown_encode (hread f hmem) hsupports hmeaning
      have hshown := runAll_shown frame nesting s (m.box.unscaled o.effectiveScale)
        ((htext _ _ _ hplace).trans hdecoded) hne
      have hothers := ih hadded hplan hrest (Machine.runAll r frame nesting scope
        ((shown f (fontName (addFont fonts f).2) frame m (m.box.unscaled o.effectiveScale)).map
          Instruction.readBack) s)
      rw [hshown.ctm] at hothers
      rw [List.map_append, Machine.runAll_append, if_neg (by simp [hout]), List.map_cons]
      exact hshown.trans hothers

end MarkWriter

end Marginalia
