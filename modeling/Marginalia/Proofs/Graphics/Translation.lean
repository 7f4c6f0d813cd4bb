import Marginalia.Proofs.Number.Unrounded
import Marginalia.Proofs.Number.Plain
import Marginalia.Graphics.Extraction

/-!
Moving a page. A program does the same whatever its maps are followed by, and its runs come out elsewhere.
Followed by a shift they come out shifted by as much, which is also what a frame that lies elsewhere does.
-/

namespace Marginalia

variable {α : Type}

namespace GraphicsState

/-- The state with another map in force. -/
def recast (φ : Matrix α → Matrix α) (g : GraphicsState α) : GraphicsState α :=
  { g with ctm := φ g.ctm }

end GraphicsState

namespace GraphicsStack

/-- The stack with other maps in all its states. -/
def recast (φ : Matrix α → Matrix α) (s : GraphicsStack α) : GraphicsStack α :=
  ⟨s.current.recast φ, s.saved.map (·.recast φ)⟩

theorem depth_recast (φ : Matrix α → Matrix α) (s : GraphicsStack α) : (s.recast φ).depth = s.depth :=
  List.length_map _

theorem restore_recast (φ : Matrix α → Matrix α) (s : GraphicsStack α) :
    (s.recast φ).restore = s.restore.recast φ := by
  obtain ⟨current, saved⟩ := s
  cases saved with
  | nil => rfl
  | cons g rest => rfl

theorem restoreTo_recast (φ : Matrix α → Matrix α) (s : GraphicsStack α) (depth : Nat) :
    (s.recast φ).restoreTo depth = (s.restoreTo depth).recast φ := by
  unfold restoreTo
  rw [depth_recast]
  induction s.depth - depth with
  | zero => rfl
  | succ n ih =>
    simp only [Nat.repeat]
    rw [ih, restore_recast]

end GraphicsStack

namespace Machine

/-- The machine with other maps in all its states and its runs drawn elsewhere. -/
def recast (φ : Matrix α → Matrix α) (move : TextRun α → TextRun α) (s : Machine α) : Machine α where
  stack := s.stack.recast φ
  floor := s.floor
  chain := s.chain
  drawn := s.drawn.map move

variable {φ : Matrix α → Matrix α} {move : TextRun α → TextRun α}

theorem restore_recast (s : Machine α) : (s.recast φ move).restore = s.restore.recast φ move := by
  unfold Machine.restore
  have hdepth : (s.recast φ move).stack.depth = s.stack.depth := s.stack.depth_recast φ
  have hfloor : (s.recast φ move).floor = s.floor := rfl
  rw [hdepth, hfloor]
  split
  · have hstack : (s.recast φ move).stack.restore = s.stack.restore.recast φ :=
      s.stack.restore_recast φ
    rw [hstack]
    rfl
  · rfl

theorem leave_recast (s entered outer : Machine α) :
    (s.recast φ move).leave (entered.recast φ move) (outer.recast φ move) =
      (s.leave entered outer).recast φ move := by
  have hstack : ((s.recast φ move).stack.restoreTo (entered.recast φ move).floor).restore =
      ((s.stack.restoreTo entered.floor).restore).recast φ := by
    rw [← GraphicsStack.restore_recast, ← GraphicsStack.restoreTo_recast]
    rfl
  unfold Machine.leave
  rw [hstack]
  rfl

theorem runs_recast (s : Machine α) : (s.recast φ move).runs = s.runs.map move :=
  List.map_reverse.symm

variable [Scalar α]

/-- That a change of maps is one behind all maps, and moves what is drawn in one frame to where the changed
states draw it in the other. -/
structure Carries (frame frame' : PageFrame α) (φ : Matrix α → Matrix α)
    (move : TextRun α → TextRun α) : Prop where
  multiply : ∀ m n : Matrix α, φ (m.multiply n) = m.multiply (φ n)
  runOf : ∀ g text count,
    Machine.runOf frame' (g.recast φ) text count = move (Machine.runOf frame g text count)

variable {frame frame' : PageFrame α}

theorem Carries.concat (h : Carries frame frame' φ move) (s : Machine α) (m : Matrix α) :
    (s.recast φ move).modify (·.concat m) = (s.modify (·.concat m)).recast φ move := by
  have hctm : m.multiply (φ s.stack.current.ctm) = φ (m.multiply s.stack.current.ctm) :=
    (h.multiply m s.stack.current.ctm).symm
  simp only [Machine.modify, Machine.recast, GraphicsStack.modify, GraphicsStack.recast,
    GraphicsState.concat, GraphicsState.recast, hctm]

theorem Carries.emit (h : Carries frame frame' φ move) (s : Machine α) (text : String) :
    (s.recast φ move).emit frame' text = (s.emit frame text).recast φ move := by
  unfold Machine.emit
  split
  · rfl
  · have hrun := h.runOf s.stack.current text text.length
    have hcurrent : (s.recast φ move).stack.current = s.stack.current.recast φ := rfl
    simp only [hcurrent, hrun]
    rfl

/-- That forms, run in either frame, commute with the change. -/
def InvokesCarried (φ : Matrix α → Matrix α) (move : TextRun α → TextRun α)
    (invoke invoke' : Scope → Bytes → Machine α → Machine α) : Prop :=
  ∀ scope name s, invoke' scope name (s.recast φ move) = (invoke scope name s).recast φ move

section Steps

variable {r : Resolver α} {invoke invoke' : Scope → Bytes → Machine α → Machine α}

theorem Carries.step (h : Carries frame frame' φ move) (hi : InvokesCarried φ move invoke invoke')
    (scope : Scope) (s : Machine α) (op : Operation α) :
    (s.recast φ move).step r frame' invoke' scope op = (s.step r frame invoke scope op).recast φ move := by
  unfold Machine.step
  cases Command.ofOperation? op with
  | none => rfl
  | some c =>
    cases c with
    | restore => exact restore_recast s
    | concat m => exact h.concat s m
    | show_ bytes => exact h.emit s _
    | showOnNextLine bytes => exact h.emit (s.modify (·.advanceLine)) _
    | showPieces pieces => exact h.emit s _
    | invoke name => exact hi scope name s
    | _ => rfl

theorem Carries.foldl (h : Carries frame frame' φ move) (hi : InvokesCarried φ move invoke invoke')
    (scope : Scope) (ops : List (Operation α)) (s : Machine α) :
    ops.foldl (Machine.step r frame' invoke' scope) (s.recast φ move) =
      (ops.foldl (Machine.step r frame invoke scope) s).recast φ move :=
  List.foldl_hom (recast φ move) (h.step hi scope)

end Steps

theorem Carries.enter (h : Carries frame frame' φ move) (s : Machine α) (form : Form α) :
    (s.recast φ move).enter form = (s.enter form).recast φ move := by
  have hsave : (s.recast φ move).stack.save = s.stack.save.recast φ := rfl
  unfold Machine.enter
  cases form.matrix with
  | none =>
    simp only [hsave, GraphicsStack.depth_recast]
    rfl
  | some m =>
    have hconcat : (s.stack.save.recast φ).modify (·.concat m) =
        (s.stack.save.modify (·.concat m)).recast φ :=
      congrArg Machine.stack (h.concat { s with stack := s.stack.save } m)
    simp only [hsave, hconcat, GraphicsStack.depth_recast]
    rfl

variable (r : Resolver α)

/-- However deep forms are followed, running them commutes with the change. -/
theorem Carries.invoke (h : Carries frame frame' φ move) (nesting : Nat) :
    InvokesCarried φ move (Machine.invoke r frame nesting) (Machine.invoke r frame' nesting) := by
  induction nesting with
  | zero => exact fun _ _ _ => rfl
  | succ nesting ih =>
    intro scope name s
    unfold Machine.invoke
    cases r.form scope name with
    | none => rfl
    | some form =>
      have hchain : (s.recast φ move).chain = s.chain := rfl
      simp only [hchain]
      split
      · rfl
      · rw [h.enter, h.foldl ih, leave_recast]

/-- A whole program commutes with the change. -/
theorem Carries.runAll (h : Carries frame frame' φ move) (nesting : Nat) (scope : Scope)
    (ops : List (Operation α)) (s : Machine α) :
    Machine.runAll r frame' nesting scope ops (s.recast φ move) =
      (Machine.runAll r frame nesting scope ops s).recast φ move :=
  h.foldl (h.invoke r nesting) scope ops s

end Machine

variable [Unrounded α]

/-- The box at other coordinates, as wide and as high. -/
def ViewerBox.moved (b : ViewerBox α) (dx dy : α) : ViewerBox α :=
  { b with x := b.x + dx, y := b.y + dy }

/-- The same text with its box elsewhere. -/
def TextRun.moved (dx dy : α) (run : TextRun α) : TextRun α :=
  { run with box := run.box.moved dx dy }

/-- The frame with its lower left corner further down and to the left. -/
def PageFrame.lowered (f : PageFrame α) (tx ty : α) : PageFrame α :=
  ⟨f.left - tx, f.bottom - ty, f.height⟩

namespace PageFrame

open Resolution Unrounded

variable (f : PageFrame α) (x y tx ty : α)

/-- A point further up and to the right on the page is so in the viewer, where up is less. -/
theorem toViewer_add : f.toViewer (x + tx) (y + ty) =
    ((f.toViewer x y).1 + toPixels tx, (f.toViewer x y).2 - toPixels ty) := by
  have hx : x + tx - f.left = x - f.left + tx := by ring
  have hy : f.height + f.bottom - (y + ty) = f.height + f.bottom - y - ty := by ring
  simp only [toViewer, hx, hy, toPixels_add, toPixels_sub]

theorem toViewer_lowered : (f.lowered tx ty).toViewer x y =
    ((f.toViewer x y).1 + toPixels tx, (f.toViewer x y).2 - toPixels ty) := by
  have hx : x - (f.left - tx) = x - f.left + tx := by ring
  have hy : f.height + (f.bottom - ty) - y = f.height + f.bottom - y - ty := by ring
  simp only [toViewer, lowered, hx, hy, toPixels_add, toPixels_sub]

end PageFrame

namespace Machine

open Resolution Unrounded

/-- A shift behind all maps moves the runs by as much. -/
theorem carries_shift (frame : PageFrame α) (tx ty : α) :
    Carries frame frame (·.multiply (.shift tx ty)) (TextRun.moved (toPixels tx) (-toPixels ty)) where
  multiply m n := m.multiply_assoc n (.shift tx ty)
  runOf g text count := by
    have heffective : g.textMatrix.multiply (g.ctm.multiply (.shift tx ty)) =
        (g.textMatrix.multiply g.ctm).multiply (.shift tx ty) :=
      (Matrix.multiply_assoc _ _ _).symm
    unfold runOf
    simp only [GraphicsState.recast, heffective]
    simp only [Matrix.multiply_shift, PageFrame.toViewer_add]
    rw [sub_right_comm, sub_eq_add_neg _ (toPixels ty)]
    rfl

/-- A frame that lies lower and further to the left moves the runs as well. -/
theorem carries_lowered (frame : PageFrame α) (tx ty : α) :
    Carries frame (frame.lowered tx ty) id (TextRun.moved (toPixels tx) (-toPixels ty)) where
  multiply _ _ := rfl
  runOf g text count := by
    unfold runOf
    simp only [GraphicsState.recast, id_eq, PageFrame.toViewer_lowered]
    rw [sub_right_comm, sub_eq_add_neg _ (toPixels ty)]
    rfl

variable (r : Resolver α) (frame : PageFrame α) (nesting : Nat) (scope : Scope)

/-- A shift at the start of a program is one behind all its maps. -/
theorem runAll_shift {operands : List (Operand α)} {tx ty : α}
    (h : Matrix.ofOperands? operands = some (.shift tx ty)) (ops : List (Operation α)) :
    runAll r frame nesting scope (⟨"cm", operands⟩ :: ops) .initial =
      (runAll r frame nesting scope ops .initial).recast (·.multiply (.shift tx ty))
        (TextRun.moved (toPixels tx) (-toPixels ty)) := by
  have hcommand : Command.ofOperation? (⟨"cm", operands⟩ : Operation α) = some (.concat (.shift tx ty)) := by
    simp only [Command.ofOperation?, h, Option.map_some]
  have hctm : (Matrix.shift tx ty).multiply .identity = Matrix.identity.multiply (.shift tx ty) := by
    rw [Matrix.multiply_shift, Matrix.shift_multiply]
    simp [Matrix.identity, one_eq, zero_eq]
  have hfirst : (initial : Machine α).run r frame nesting scope ⟨"cm", operands⟩ =
      initial.recast (·.multiply (.shift tx ty)) (TextRun.moved (toPixels tx) (-toPixels ty)) := by
    simp only [run, step, hcommand, perform, modify, GraphicsStack.modify, GraphicsState.concat]
    unfold recast GraphicsStack.recast GraphicsState.recast
    simp only [initial, GraphicsStack.initial, GraphicsState.initial, hctm, List.map_nil]
  rw [← (carries_shift frame tx ty).runAll r nesting scope ops, ← hfirst]
  rfl

/-- A program behind a shift of the page draws what it draws alone in a frame that is lower by the shift, and
both are what it draws in the same frame, moved to the right and up by the shift. -/
theorem runs_shift {operands : List (Operand α)} {tx ty : α}
    (h : Matrix.ofOperands? operands = some (.shift tx ty)) (ops : List (Operation α)) :
    (runAll r frame nesting scope (⟨"cm", operands⟩ :: ops) .initial).runs =
        (runAll r (frame.lowered tx ty) nesting scope ops .initial).runs ∧
      (runAll r frame nesting scope (⟨"cm", operands⟩ :: ops) .initial).runs =
        (runAll r frame nesting scope ops .initial).runs.map
          (.moved (toPixels tx) (-toPixels ty)) := by
  have hshift : (runAll r frame nesting scope (⟨"cm", operands⟩ :: ops) .initial).runs =
      (runAll r frame nesting scope ops .initial).runs.map (.moved (toPixels tx) (-toPixels ty)) := by
    rw [runAll_shift r frame nesting scope h, runs_recast]
  have hlowered : (runAll r (frame.lowered tx ty) nesting scope ops .initial).runs =
      (runAll r frame nesting scope ops .initial).runs.map (.moved (toPixels tx) (-toPixels ty)) := by
    rw [← runs_recast (φ := id), ← (carries_lowered frame tx ty).runAll r nesting scope ops]
    rfl
  exact ⟨hshift.trans hlowered.symm, hshift⟩

/-- Strings are shown byte by byte, and every name is that of a form turned by a quarter, which takes back a
state that it did not save and leaves one saved. -/
def turning : Resolver (Exact .plain) where
  form _ _ := some ⟨⟨1, 0⟩, [], some ⟨0, 1, -1, 0, 1, 0⟩, .nothing⟩
  text _ _ bytes := String.ofList (Latin1.decode bytes)
  operations _ := [⟨"Q", []⟩, ⟨"Td", [.int 3, .int 4]⟩, ⟨"Tj", [.string [0x61, 0x62]]⟩, ⟨"q", []⟩]

/-- A page that shows a text in a form and one behind it, shifted to the right and down. -/
theorem runs_shift_turning :
    let operands : List (Operand (Exact .plain)) := [.int 1, .int 0, .int 0, .int 1, .int 100, .real (-50)]
    let ops : List (Operation (Exact .plain)) :=
      [⟨"Tf", [.name [0x46], .int 10]⟩, ⟨"q", []⟩, ⟨"Do", [.name [0x58]]⟩, ⟨"Q", []⟩, ⟨"Q", []⟩,
        ⟨"Tj", [.string [0x63]]⟩]
    let frame : PageFrame (Exact .plain) := ⟨5, 7, 792⟩
    let alone := (runAll turning frame 32 .nothing ops .initial).runs
    let shifted := (runAll turning frame 32 .nothing (⟨"cm", operands⟩ :: ops) .initial).runs
    alone.map TextRun.text = ["ab", "c"] ∧
      shifted = (runAll turning (frame.lowered 100 (-50)) 32 .nothing ops .initial).runs ∧
      shifted = alone.map (.moved (toPixels 100) (-toPixels (-50))) := by
  intro operands ops frame alone shifted
  have h : Matrix.ofOperands? operands = some (.shift 100 (-50)) := rfl
  exact ⟨rfl, runs_shift turning frame 32 .nothing h ops⟩

end Machine

end Marginalia
