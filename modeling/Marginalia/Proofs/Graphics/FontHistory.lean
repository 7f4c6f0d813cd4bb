import Marginalia.Proofs.Graphics.Isolation

/-!
Which selection of a font governs a shown text. A program is run with a history of what it does that bears on
fonts, and the selection in force is told from the history alone: it is the last one that no state taken back
and no form left has undone. The key that the machine shows a text with is the key of that selection.
-/

namespace Marginalia

variable {α : Type}

/-- What a program does that bears on the fonts of its texts. -/
inductive FontEvent (α : Type) where
  | selected (scope : Scope) (key : Bytes)
  | saved
  | restored
  | entered
  | left
  | shown (scope : Scope) (pieces : List Bytes) (run : TextRun α)

/-- A text that was drawn: from which strings, where their font was looked up, and which selection of a font
was in force, if any. -/
structure Reading (α : Type) where
  scope : Scope
  pieces : List Bytes
  run : TextRun α
  selection : Option (Scope × Bytes)

namespace FontEvent

/-- What undoes all that happened since it began: taking back a state, since that was saved, or leaving a form,
since that was entered. -/
inductive Undone where
  | save
  | form

/-- The selection in force after a history, the latest event of which comes first. Going back, what happened
after the beginning of something that undoes it does not count. -/
def governing : List Undone → List (FontEvent α) → Option (Scope × Bytes)
  | _, [] => none
  | undone, restored :: history => governing (.save :: undone) history
  | undone, left :: history => governing (.form :: undone) history
  | .save :: undone, saved :: history => governing undone history
  | .form :: undone, entered :: history => governing undone history
  | [], selected scope key :: _ => some (scope, key)
  | undone, _ :: history => governing undone history

/-- The key of a selection, which is empty if nothing was selected. -/
def keyOf : Option (Scope × Bytes) → Bytes
  | some (_, key) => key
  | none => []

/-- The texts of a history, the latest first. -/
def readings : List (FontEvent α) → List (Reading α)
  | [] => []
  | shown scope pieces run :: history => ⟨scope, pieces, run, governing [] history⟩ :: readings history
  | _ :: history => readings history

section Governing

variable (undone : List Undone) (history : List (FontEvent α)) (scope : Scope)

theorem governing_restored : governing undone (restored :: history) = governing (.save :: undone) history := by
  rcases undone with _ | ⟨_ | _, undone⟩ <;> rfl

theorem governing_left : governing undone (left :: history) = governing (.form :: undone) history := by
  rcases undone with _ | ⟨_ | _, undone⟩ <;> rfl

theorem governing_shown (pieces : List Bytes) (run : TextRun α) :
    governing undone (shown scope pieces run :: history) = governing undone history := by
  rcases undone with _ | ⟨_ | _, undone⟩ <;> rfl

theorem governing_selected (u : Undone) (key : Bytes) :
    governing (u :: undone) (selected scope key :: history) = governing (u :: undone) history := by
  cases u <;> rfl

end Governing

/-- That every text of a history is read in the font that the key in force has in the scope of the text. -/
def ReadByKey (r : Resolver α) (history : List (FontEvent α)) : Prop :=
  ∀ x ∈ readings history, x.run.text = String.join (x.pieces.map (r.text x.scope (keyOf x.selection)))

end FontEvent

namespace Command

open FontEvent

/-- The strings that a command shows. -/
def pieces : Command α → List Bytes
  | .show_ bytes | .showOnNextLine bytes => [bytes]
  | .showPieces pieces => pieces
  | _ => []

/-- What a command that was carried out between two machines adds to the history. Whether a state was taken back
and what was drawn can be told from the machines. -/
def events (scope : Scope) (s t : Machine α) : Command α → List (FontEvent α)
  | .selectFont key _ => [.selected scope key]
  | .save => [.saved]
  | .restore => .replicate (s.stack.depth - t.stack.depth) .restored
  | c => (t.drawn.take (t.drawn.length - s.drawn.length)).map (.shown scope c.pieces)

end Command

/-- A machine with the history of its program. -/
structure Recorded (α : Type) where
  machine : Machine α
  history : List (FontEvent α)

namespace Recorded

open FontEvent

variable [Scalar α]

def initial : Recorded α := ⟨.initial, []⟩

section Running

variable (r : Resolver α) (frame : PageFrame α)

/-- Carries out a command; the events of a form are those of its own program. -/
def perform (invoke : Scope → Bytes → Recorded α → Recorded α) (scope : Scope) (x : Recorded α) :
    Command α → Recorded α
  | .invoke name => invoke scope name x
  | c =>
    let t := x.machine.perform r frame (fun _ _ s => s) scope c
    ⟨t, c.events scope x.machine t ++ x.history⟩

def step (invoke : Scope → Bytes → Recorded α → Recorded α) (scope : Scope) (x : Recorded α)
    (op : Operation α) : Recorded α :=
  match Command.ofOperation? op with
  | some c => x.perform r frame invoke scope c
  | none => x

def enter (x : Recorded α) (form : Form α) : Recorded α :=
  ⟨x.machine.enter form, .entered :: x.history⟩

def leave (x : Recorded α) (entered outer : Recorded α) : Recorded α :=
  ⟨x.machine.leave entered.machine outer.machine, .left :: x.history⟩

def invoke : Nat → Scope → Bytes → Recorded α → Recorded α
  | 0, _, _, x => x
  | nesting + 1, scope, name, x =>
    match r.form scope name with
    | none => x
    | some form =>
      if x.machine.chain.contains form.id then x
      else
        let entered := x.enter form
        let done := (r.operations form.content).foldl (step r frame (invoke nesting) form.scope) entered
        done.leave entered x

def runAll (nesting : Nat) (scope : Scope) (ops : List (Operation α)) (x : Recorded α) : Recorded α :=
  ops.foldl (step r frame (invoke r frame nesting) scope) x

end Running

section Erasure

variable {r : Resolver α} {frame : PageFrame α} {invoke : Scope → Bytes → Recorded α → Recorded α}
  {invoke' : Scope → Bytes → Machine α → Machine α}

/-- Recording a program does not change what it does. -/
theorem machine_step (hi : ∀ scope name x, (invoke scope name x).machine = invoke' scope name x.machine)
    (scope : Scope) (x : Recorded α) (op : Operation α) :
    (x.step r frame invoke scope op).machine = x.machine.step r frame invoke' scope op := by
  unfold step Machine.step
  cases Command.ofOperation? op with
  | none => rfl
  | some c =>
    cases c with
    | invoke name => exact hi scope name x
    | _ => rfl

theorem machine_foldl (hi : ∀ scope name x, (invoke scope name x).machine = invoke' scope name x.machine)
    (scope : Scope) (ops : List (Operation α)) (x : Recorded α) :
    (ops.foldl (step r frame invoke scope) x).machine =
      ops.foldl (Machine.step r frame invoke' scope) x.machine :=
  (List.foldl_hom machine fun x op => (machine_step hi scope x op).symm).symm

variable (r frame)

theorem machine_invoke (nesting : Nat) (scope : Scope) (name : Bytes) (x : Recorded α) :
    (Recorded.invoke r frame nesting scope name x).machine =
      Machine.invoke r frame nesting scope name x.machine := by
  induction nesting generalizing scope name x with
  | zero => rfl
  | succ nesting ih =>
    unfold Recorded.invoke Machine.invoke
    cases r.form scope name with
    | none => rfl
    | some form =>
      by_cases hc : x.machine.chain.contains form.id
      · simp only [hc, if_true]
      · simp only [hc, if_false, Bool.false_eq_true]
        unfold Recorded.leave
        rw [machine_foldl ih]
        rfl

theorem machine_runAll (nesting : Nat) (scope : Scope) (ops : List (Operation α)) (x : Recorded α) :
    (x.runAll r frame nesting scope ops).machine = Machine.runAll r frame nesting scope ops x.machine :=
  machine_foldl (machine_invoke r frame nesting) scope ops x

end Erasure

/-- That the history tells what was drawn, and how it was read. -/
structure Faithful (r : Resolver α) (x : Recorded α) : Prop where
  drawn : x.machine.drawn = (readings x.history).map Reading.run
  read : ReadByKey r x.history

/-- That it tells the key in force as well. -/
structure Told (r : Resolver α) (x : Recorded α) : Prop extends Faithful r x where
  key : x.machine.stack.current.fontKey = keyOf (governing [] x.history)

/-- What a program that was entered after the history `outer` keeps. The states that it saved itself are `above`
those saved before. Each of them, and the one in force, has the key of the selection that governs where it was
saved; and leaving the program, be it after some of these states are taken back, undoes all that happened since
`outer`. -/
structure Follows (r : Resolver α) (base : List (GraphicsState α)) (outer : List (FontEvent α))
    (above : List (GraphicsState α)) (x : Recorded α) : Prop extends Faithful r x where
  saved : x.machine.stack.saved = above ++ base
  floor : x.machine.floor = base.length
  keys : ∀ k g, (x.machine.stack.current :: above)[k]? = some g →
    g.fontKey = keyOf (governing (List.replicate k .save) x.history)
  undone : ∀ k ≤ above.length, ∀ undone,
    governing (List.replicate k .save ++ .form :: undone) x.history = governing undone outer

namespace Follows

variable {r : Resolver α} {base above : List (GraphicsState α)} {outer history : List (FontEvent α)}
  {x : Recorded α} {s : Machine α}

omit [Scalar α] in
theorem told (h : Follows r base outer above x) : x.Told r :=
  ⟨h.toFaithful, h.keys 0 _ rfl⟩

omit [Scalar α] in
/-- A change of the state that leaves its key as it was is no event. -/
theorem modify (h : Follows r base outer above ⟨s, history⟩) (f : GraphicsState α → GraphicsState α)
    (hf : (f s.stack.current).fontKey = s.stack.current.fontKey) :
    Follows r base outer above ⟨s.modify f, history⟩ where
  drawn := h.drawn
  read := h.read
  saved := h.saved
  floor := h.floor
  keys k g hg := by
    cases k with
    | zero =>
      obtain rfl : f s.stack.current = g := Option.some.inj hg
      rw [hf]
      exact h.keys 0 _ rfl
    | succ k => exact h.keys (k + 1) g hg
  undone := h.undone

omit [Scalar α] in
theorem select (h : Follows r base outer above ⟨s, history⟩) (scope : Scope) (key : Bytes)
    {f : GraphicsState α → GraphicsState α} (hf : (f s.stack.current).fontKey = key) :
    Follows r base outer above ⟨s.modify f, .selected scope key :: history⟩ where
  drawn := h.drawn
  read := h.read
  saved := h.saved
  floor := h.floor
  keys k g hg := by
    cases k with
    | zero =>
      obtain rfl : f s.stack.current = g := Option.some.inj hg
      exact hf
    | succ k =>
      rw [List.replicate_succ, governing_selected]
      exact h.keys (k + 1) g hg
  undone k hk undone := by
    have hskip := h.undone k hk undone
    cases k with
    | zero => exact hskip
    | succ k => exact hskip

omit [Scalar α] in
theorem save (h : Follows r base outer above ⟨s, history⟩) :
    Follows r base outer (s.stack.current :: above) ⟨{ s with stack := s.stack.save }, .saved :: history⟩ where
  drawn := h.drawn
  read := h.read
  saved := congrArg (s.stack.current :: ·) h.saved
  floor := h.floor
  keys k g hg := by
    cases k with
    | zero =>
      obtain rfl : s.stack.current = g := Option.some.inj hg
      exact h.keys 0 _ rfl
    | succ k => exact h.keys k g hg
  undone k hk undone := by
    cases k with
    | zero => exact h.undone 0 (Nat.zero_le _) undone
    | succ k => exact h.undone k (Nat.le_of_succ_le_succ hk) undone

omit [Scalar α] in
theorem restore {g : GraphicsState α} (h : Follows r base outer (g :: above) ⟨s, history⟩) :
    Follows r base outer above ⟨{ s with stack := ⟨g, above ++ base⟩ }, .restored :: history⟩ where
  drawn := h.drawn
  read := h.read
  saved := rfl
  floor := h.floor
  keys k g' hg := by
    rw [governing_restored]
    exact h.keys (k + 1) g' hg
  undone k hk undone := by
    rw [governing_restored]
    exact h.undone (k + 1) (Nat.succ_le_succ hk) undone

omit [Scalar α] in
/-- Only states that the program saved itself are taken back, since the floor is where they begin. -/
theorem takeBack (h : Follows r base outer above ⟨s, history⟩) : ∃ above', Follows r base outer above'
    ⟨s.restore, .replicate (s.stack.depth - s.restore.stack.depth) .restored ++ history⟩ := by
  rcases s.restore_cases with ⟨-, hr⟩ | ⟨g, rest, hlt, hs, hr⟩
  · rw [hr, Nat.sub_self]
    exact ⟨above, h⟩
  · have hsaved : g :: rest = above ++ base := hs.symm.trans h.saved
    have hfloor : s.floor = base.length := h.floor
    have hdepth : s.stack.depth = above.length + base.length := by
      rw [GraphicsStack.depth, h.saved, List.length_append]
    obtain ⟨g', above, rfl⟩ := List.exists_cons_of_length_pos (l := above) (by omega)
    obtain ⟨rfl, rfl⟩ := List.cons.inj hsaved
    have hone : s.stack.depth - s.restore.stack.depth = 1 := by
      have hrest : s.restore.stack.depth = above.length + base.length := by
        rw [hr]
        exact List.length_append
      rw [hrest, hdepth, List.length_cons]
      omega
    rw [hone, hr]
    exact ⟨above, h.restore⟩

/-- A text is read in the font that the key in force has in the scope. -/
theorem emit (h : Follows r base outer above ⟨s, history⟩) (frame : PageFrame α) (scope : Scope)
    (pieces : List Bytes) {text : String}
    (ht : text = String.join (pieces.map (r.text scope s.stack.current.fontKey))) :
    Follows r base outer above ⟨s.emit frame text,
      ((s.emit frame text).drawn.take ((s.emit frame text).drawn.length - s.drawn.length)).map
        (.shown scope pieces) ++ history⟩ := by
  unfold Machine.emit
  split
  · rw [Nat.sub_self]
    exact h
  · simp only [List.length_cons, Nat.add_sub_cancel_left, List.take_succ_cons, List.take_zero,
      List.map_singleton, List.singleton_append]
    refine ⟨⟨congrArg (_ :: ·) h.drawn, List.forall_mem_cons.mpr ⟨?_, h.read⟩⟩, h.saved, h.floor, ?_, ?_⟩
    · rw [← h.told.key]
      exact ht
    · intro k g hg
      rw [governing_shown]
      exact (h.modify (·.advancePen _) rfl).keys k g hg
    · intro k hk undone
      rw [governing_shown]
      exact h.undone k hk undone

end Follows

section Runs

variable {r : Resolver α} {frame : PageFrame α} {invoke : Scope → Bytes → Recorded α → Recorded α}
  {base above : List (GraphicsState α)} {outer : List (FontEvent α)} {x : Recorded α}

/-- That a form was run in between: it leaves behind what it draws, and the selection in force as it was. -/
structure Visited (r : Resolver α) (x y : Recorded α) : Prop extends Faithful r y where
  machine : ∃ new, y.machine = { x.machine with drawn := new ++ x.machine.drawn }
  governing : ∀ undone, governing undone y.history = governing undone x.history

omit [Scalar α] in
theorem Told.visited (h : x.Told r) : Visited r x x :=
  ⟨h.toFaithful, ⟨[], rfl⟩, fun _ => rfl⟩

def InvokesTold (r : Resolver α) (invoke : Scope → Bytes → Recorded α → Recorded α) : Prop :=
  ∀ scope name x, x.Told r → Visited r x (invoke scope name x)

omit [Scalar α] in
theorem Follows.visit {y : Recorded α} (h : Follows r base outer above x) (hy : Visited r x y) :
    Follows r base outer above y := by
  obtain ⟨hfaithful, ⟨new, hmachine⟩, hgoverning⟩ := hy
  refine ⟨hfaithful, ?_, ?_, ?_, ?_⟩
  · rw [hmachine]
    exact h.saved
  · rw [hmachine]
    exact h.floor
  · intro k g hg
    rw [hmachine] at hg
    rw [hgoverning]
    exact h.keys k g hg
  · intro k hk undone
    rw [hgoverning]
    exact h.undone k hk undone

variable (frame)

theorem Follows.perform (hi : InvokesTold r invoke) (h : Follows r base outer above x) (scope : Scope)
    (c : Command α) : ∃ above', Follows r base outer above' (x.perform r frame invoke scope c) := by
  obtain ⟨s, history⟩ := x
  -- The other commands draw nothing, and so add no event.
  have hquiet : ∀ pieces, (s.drawn.take (s.drawn.length - s.drawn.length)).map (FontEvent.shown scope pieces) ++
      history = history := by
    intro pieces
    rw [Nat.sub_self]
    rfl
  have hmodify : ∀ f : GraphicsState α → GraphicsState α,
      (f s.stack.current).fontKey = s.stack.current.fontKey → ∀ pieces, Follows r base outer above
        ⟨s.modify f, (s.drawn.take (s.drawn.length - s.drawn.length)).map (.shown scope pieces) ++ history⟩ := by
    intro f hf pieces
    rw [hquiet]
    exact h.modify f hf
  cases c with
  | save => exact ⟨_, h.save⟩
  | restore => exact h.takeBack
  | selectFont key size => exact ⟨above, h.select scope key rfl⟩
  | endText => exact ⟨above, by simpa only [Recorded.perform, Command.events, Machine.perform, hquiet] using h⟩
  | show_ bytes =>
    refine ⟨above, h.emit frame scope [bytes] ?_⟩
    simp [Machine.decoded]
  | showPieces pieces => exact ⟨above, h.emit frame scope pieces rfl⟩
  | showOnNextLine bytes =>
    refine ⟨above, (h.modify (·.advanceLine) rfl).emit frame scope [bytes] ?_⟩
    simp [Machine.decoded]
  | invoke name => exact ⟨above, h.visit (hi scope name _ h.told)⟩
  | _ => exact ⟨above, hmodify _ rfl _⟩

theorem Follows.step (hi : InvokesTold r invoke) (h : Follows r base outer above x) (scope : Scope)
    (op : Operation α) : ∃ above', Follows r base outer above' (x.step r frame invoke scope op) := by
  unfold Recorded.step
  cases Command.ofOperation? op with
  | none => exact ⟨above, h⟩
  | some c => exact h.perform frame hi scope c

theorem Follows.foldl (hi : InvokesTold r invoke) (h : Follows r base outer above x) (scope : Scope)
    (ops : List (Operation α)) :
    ∃ above', Follows r base outer above' (ops.foldl (Recorded.step r frame invoke scope) x) := by
  induction ops generalizing above x with
  | nil => exact ⟨above, h⟩
  | cons op ops ih =>
    obtain ⟨above', h'⟩ := h.step frame hi scope op
    exact ih h'

/-- The program of a form starts with the key in force where it is invoked. -/
theorem Told.enter (h : x.Told r) (form : Form α) :
    Follows r (x.machine.stack.current :: x.machine.stack.saved) x.history [] (x.enter form) where
  drawn := h.drawn
  read := h.read
  saved := x.machine.enter_saved form
  floor := congrArg List.length (x.machine.enter_saved form)
  keys k g hg := by
    have hkey : (x.machine.enter form).stack.current.fontKey = x.machine.stack.current.fontKey := by
      unfold Machine.enter
      cases form.matrix <;> rfl
    cases k with
    | zero =>
      obtain rfl : (x.machine.enter form).stack.current = g := Option.some.inj hg
      exact hkey.trans h.key
    | succ k => cases hg
  undone k hk undone := by
    obtain rfl : k = 0 := Nat.le_zero.mp hk
    rfl

variable (r)

/-- A form is passed over, or entered, run and left. -/
theorem invoke_cases (nesting : Nat) (scope : Scope) (name : Bytes) (x : Recorded α) :
    Recorded.invoke r frame (nesting + 1) scope name x = x ∨
      ∃ form, Recorded.invoke r frame (nesting + 1) scope name x =
        ((r.operations form.content).foldl (Recorded.step r frame (Recorded.invoke r frame nesting) form.scope)
          (x.enter form)).leave (x.enter form) x := by
  unfold Recorded.invoke
  cases r.form scope name with
  | none => exact .inl rfl
  | some form =>
    by_cases hc : x.machine.chain.contains form.id
    · exact .inl (if_pos hc)
    · exact .inr ⟨form, if_neg hc⟩

/-- However deep forms are followed, the history tells how the texts in them are read. -/
theorem invoke_told (nesting : Nat) : InvokesTold r (Recorded.invoke r frame nesting) := by
  induction nesting with
  | zero => exact fun _ _ x h => h.visited
  | succ nesting ih =>
    intro scope name x h
    have hmachine : ∃ new, (Recorded.invoke r frame (nesting + 1) scope name x).machine =
        { x.machine with drawn := new ++ x.machine.drawn } := by
      rw [machine_invoke]
      exact Machine.invoke_addsOnly r frame (nesting + 1) scope name x.machine
    rcases invoke_cases r frame nesting scope name x with heq | ⟨form, heq⟩
    · rw [heq]
      exact h.visited
    · obtain ⟨above, hdone⟩ := (h.enter form).foldl frame ih form.scope (r.operations form.content)
      rw [heq] at hmachine ⊢
      refine ⟨⟨hdone.drawn, hdone.read⟩, hmachine, ?_⟩
      intro undone
      exact (governing_left undone _).trans (hdone.undone 0 (Nat.zero_le _) undone)

/-- The history of a page's program tells what it draws and how the texts are read. -/
theorem told_runAll (nesting : Nat) (scope : Scope) (ops : List (Operation α)) :
    ((initial : Recorded α).runAll r frame nesting scope ops).Told r := by
  have hstart : Follows r [] [] [] (initial : Recorded α) := by
    refine ⟨⟨rfl, List.forall_mem_nil _⟩, rfl, rfl, ?_, ?_⟩
    · intro k g hg
      cases k with
      | zero =>
        obtain rfl := Option.some.inj hg
        rfl
      | succ k => cases hg
    · intro k _ undone
      rfl
  obtain ⟨above, h⟩ := hstart.foldl frame (invoke_told r frame nesting) scope ops
  exact h.told

end Runs

end Recorded

end Marginalia
