import Marginalia.Proofs.Number.Plain
import Marginalia.Proofs.Graphics.Noninterference

/-!
Starting a line. An operation that starts one puts the pen at a place that no text shown before has a say in,
and until a state from before is taken back all that is drawn is placed alike.
-/

namespace Marginalia

variable {α : Type}

namespace Machine

/-- The machine with runs drawn earlier. -/
def behind (earlier : List (TextRun α)) (s : Machine α) : Machine α :=
  { s with drawn := s.drawn ++ earlier }

/-- The machine with nothing saved and nothing drawn. -/
def bare (s : Machine α) : Machine α :=
  { s with stack := ⟨s.stack.current, []⟩, drawn := [] }

theorem restore_behind (earlier : List (TextRun α)) (s : Machine α) :
    (s.behind earlier).restore = s.restore.behind earlier := by
  have hfloor : (s.behind earlier).floor = s.floor := rfl
  have hstack : (s.behind earlier).stack = s.stack := rfl
  unfold Machine.restore
  rw [hfloor, hstack]
  split <;> rfl

/-- That two machines are in the same state, with so many of the states saved last the same in both. -/
structure InStep (depth : Nat) (s s' : Machine α) : Prop where
  current : s'.stack.current = s.stack.current
  saved : s'.stack.saved.take depth = s.stack.saved.take depth
  length : s'.stack.saved.length = s.stack.saved.length
  floor : s'.floor = s.floor
  chain : s'.chain = s.chain

theorem SameButPen.inStep {s s' : Machine α} (h : SameButPen s s')
    (hcurrent : s'.stack.current = s.stack.current) : InStep 0 s s' :=
  ⟨hcurrent, rfl, h.saved.length_eq.symm, h.floor, h.chain⟩

theorem InStep.modify {depth : Nat} {s s' : Machine α} (h : InStep depth s s')
    (f : GraphicsState α → GraphicsState α) : InStep depth (s.modify f) (s'.modify f) :=
  ⟨congrArg f h.current, h.saved, h.length, h.floor, h.chain⟩

theorem InStep.save {depth : Nat} {s s' : Machine α} (h : InStep depth s s') :
    InStep (depth + 1) { s with stack := s.stack.save } { s' with stack := s'.stack.save } where
  current := h.current
  saved := by
    show (s'.stack.current :: s'.stack.saved).take (depth + 1) =
      (s.stack.current :: s.stack.saved).take (depth + 1)
    rw [List.take_succ_cons, List.take_succ_cons, h.current, h.saved]
  length := congrArg (· + 1) h.length
  floor := h.floor
  chain := h.chain

/-- What is taken back was saved last, and is the same in both. -/
theorem InStep.restore {depth : Nat} {s s' : Machine α} (h : InStep (depth + 1) s s') :
    InStep depth s.restore s'.restore := by
  have hdepth : s'.stack.depth = s.stack.depth := h.length
  have hfloor := h.floor
  rcases s.restore_cases with ⟨hle, hr⟩ | ⟨g, rest, hlt, hs, hr⟩ <;>
    rcases s'.restore_cases with ⟨hle', hr'⟩ | ⟨g', rest', hlt', hs', hr'⟩
  · have hsaved := congrArg (List.take depth) h.saved
    rw [List.take_take, List.take_take, Nat.min_eq_left (Nat.le_succ depth)] at hsaved
    rw [hr, hr']
    exact ⟨h.current, hsaved, h.length, hfloor, h.chain⟩
  · omega
  · omega
  · have hsaved := h.saved
    have hlength := h.length
    rw [hs, hs', List.take_succ_cons, List.take_succ_cons, List.cons.injEq] at hsaved
    rw [hs, hs', List.length_cons, List.length_cons, Nat.add_right_cancel_iff] at hlength
    rw [hr, hr']
    exact ⟨hsaved.1, hsaved.2, hlength, hfloor, h.chain⟩

end Machine

variable [Scalar α]

namespace Command

/-- Whether a command starts a line, at the origin or from where the line before started. -/
def startsLine : Command α → Bool
  | .beginText | .setTextMatrix _ | .moveLine .. | .moveLineWithLeading .. | .advanceLine => true
  | _ => false

end Command

namespace Operation

/-- That a program shows no text itself and, entered with so many states saved that it may take back, takes
back none but these and those that it saves. -/
def staysAbove : Nat → List (Operation α) → Bool
  | _, [] => true
  | depth, op :: ops =>
    match Command.ofOperation? op with
    | some .save => staysAbove (depth + 1) ops
    | some .restore => decide (0 < depth) && staysAbove (depth - 1) ops
    | some (.show_ _) | some (.showOnNextLine _) | some (.showPieces _) => false
    | _ => staysAbove depth ops

end Operation

/-- That two runs begin at the same place and are of the same height. -/
structure TextRun.PlacedAlike (run run' : TextRun α) : Prop where
  x : run'.box.x = run.box.x
  y : run'.box.y = run.box.y
  height : run'.box.height = run.box.height

namespace Machine

variable {r : Resolver α} {frame : PageFrame α} {invoke : Scope → Bytes → Machine α → Machine α}

section Forms

variable (earlier : List (TextRun α))

theorem emit_behind (s : Machine α) (text : String) :
    (s.behind earlier).emit frame text = (s.emit frame text).behind earlier := by
  unfold Machine.emit
  split <;> rfl

/-- Nothing depends on what was drawn earlier. -/
theorem step_behind (hi : ∀ scope name s, invoke scope name (s.behind earlier) =
      (invoke scope name s).behind earlier) (scope : Scope) (s : Machine α) (op : Operation α) :
    (s.behind earlier).step r frame invoke scope op = (s.step r frame invoke scope op).behind earlier := by
  unfold Machine.step
  cases Command.ofOperation? op with
  | none => rfl
  | some c =>
    cases c with
    | restore => exact restore_behind earlier s
    | show_ bytes => exact emit_behind earlier s _
    | showOnNextLine bytes => exact emit_behind earlier (s.modify (·.advanceLine)) _
    | showPieces pieces => exact emit_behind earlier s _
    | invoke name => exact hi scope name s
    | _ => rfl

theorem foldl_behind (hi : ∀ scope name s, invoke scope name (s.behind earlier) =
      (invoke scope name s).behind earlier) (scope : Scope) (ops : List (Operation α)) (s : Machine α) :
    ops.foldl (step r frame invoke scope) (s.behind earlier) =
      (ops.foldl (step r frame invoke scope) s).behind earlier :=
  List.foldl_hom (behind earlier) (step_behind earlier hi scope)

variable (r frame)

theorem invoke_behind (nesting : Nat) (scope : Scope) (name : Bytes) (s : Machine α) :
    Machine.invoke r frame nesting scope name (s.behind earlier) =
      (Machine.invoke r frame nesting scope name s).behind earlier := by
  induction nesting generalizing scope name s with
  | zero => rfl
  | succ nesting ih =>
    unfold Machine.invoke
    cases r.form scope name with
    | none => rfl
    | some form =>
      have hchain : (s.behind earlier).chain = s.chain := rfl
      have henter : (s.behind earlier).enter form = (s.enter form).behind earlier := rfl
      simp only [hchain]
      split
      · rfl
      · rw [henter, foldl_behind earlier ih]
        rfl

/-- What a form draws can be seen from the bare machine. -/
theorem invoke_bare (nesting : Nat) (scope : Scope) (name : Bytes) (s : Machine α) :
    Machine.invoke r frame nesting scope name s =
      { s with drawn := (Machine.invoke r frame nesting scope name s.bare).drawn ++ s.drawn } := by
  have hsaved : (Machine.invoke r frame nesting scope name s).drawn =
      (Machine.invoke r frame nesting scope name (s.bare.behind s.drawn)).drawn :=
    invoke_ignoresSaved r frame nesting scope name (s.bare.behind s.drawn) s rfl rfl rfl ⟨s.stack.saved, rfl⟩
  rw [invoke_behind] at hsaved
  obtain ⟨new, hn⟩ := invoke_addsOnly r frame nesting scope name s
  rw [hn] at hsaved
  rw [hn]
  exact congrArg (fun drawn => { s with drawn }) hsaved

/-- A form draws the same wherever the state in force is the same and the same forms are under way. -/
theorem invoke_alike (nesting : Nat) (scope : Scope) (name : Bytes) {s s' : Machine α}
    (hcurrent : s'.stack.current = s.stack.current) (hchain : s'.chain = s.chain) :
    ∃ new, Machine.invoke r frame nesting scope name s = { s with drawn := new ++ s.drawn } ∧
      Machine.invoke r frame nesting scope name s' = { s' with drawn := new ++ s'.drawn } := by
  have hbare : (Machine.invoke r frame nesting scope name s'.bare).drawn =
      (Machine.invoke r frame nesting scope name s.bare).drawn :=
    invoke_ignoresSaved r frame nesting scope name s.bare s'.bare hcurrent hchain rfl ⟨[], rfl⟩
  refine ⟨_, invoke_bare r frame nesting scope name s, ?_⟩
  rw [← hbare]
  exact invoke_bare r frame nesting scope name s'

end Forms

/-- The pen is where the line starts, wherever it was. -/
theorem SameButPen.startLine {s s' : Machine α} (h : SameButPen s s') {c : Command α}
    (hc : c.startsLine = true) (scope : Scope) :
    (s'.perform r frame invoke scope c).stack.current = (s.perform r frame invoke scope c).stack.current := by
  obtain ⟨m, hm⟩ := h.current
  cases c with
  | beginText =>
    show s'.stack.current.beginText = _
    rw [hm]
    rfl
  | setTextMatrix n =>
    show s'.stack.current.setTextMatrix n = _
    rw [hm]
    rfl
  | moveLine tx ty =>
    show s'.stack.current.nextLine tx ty = _
    rw [hm]
    rfl
  | moveLineWithLeading tx ty =>
    show { s'.stack.current with leading := some (-ty) }.nextLine tx ty = _
    rw [hm]
    rfl
  | advanceLine =>
    show s'.stack.current.advanceLine = _
    rw [hm]
    rfl
  | _ => cases hc

variable (r frame) (nesting : Nat) (scope : Scope)

/-- Machines that are in step stay so, and draw the same. -/
theorem InStep.run {depth : Nat} {s s' : Machine α} (h : InStep depth s s') {op : Operation α}
    {ops : List (Operation α)} (ho : Operation.staysAbove depth (op :: ops) = true) :
    ∃ depth' new, Operation.staysAbove depth' ops = true ∧
      InStep depth' (s.run r frame nesting scope op) (s'.run r frame nesting scope op) ∧
      (s.run r frame nesting scope op).drawn = new ++ s.drawn ∧
      (s'.run r frame nesting scope op).drawn = new ++ s'.drawn := by
  unfold Operation.staysAbove at ho
  unfold Machine.run Machine.step
  cases hc : Command.ofOperation? op with
  | none =>
    rw [hc] at ho
    exact ⟨depth, [], ho, h, rfl, rfl⟩
  | some c =>
    rw [hc] at ho
    cases c with
    | save => exact ⟨depth + 1, [], ho, h.save, rfl, rfl⟩
    | restore =>
      simp only [Bool.and_eq_true, decide_eq_true_eq] at ho
      obtain ⟨depth, rfl⟩ := Nat.exists_eq_succ_of_ne_zero (Nat.ne_of_gt ho.1)
      exact ⟨depth, [], ho.2, h.restore, s.drawn_restore, s'.drawn_restore⟩
    | endText => exact ⟨depth, [], ho, h, rfl, rfl⟩
    | show_ bytes => cases ho
    | showOnNextLine bytes => cases ho
    | showPieces pieces => cases ho
    | invoke name =>
      obtain ⟨new, hn, hn'⟩ := invoke_alike r frame nesting scope name h.current h.chain
      simp only [perform, hn, hn']
      exact ⟨depth, new, ho, ⟨h.current, h.saved, h.length, h.floor, h.chain⟩, rfl, rfl⟩
    | _ => exact ⟨depth, [], ho, h.modify _, rfl, rfl⟩

theorem InStep.runAll {depth : Nat} {s s' : Machine α} (h : InStep depth s s') {ops : List (Operation α)}
    (ho : Operation.staysAbove depth ops = true) :
    ∃ depth' new, InStep depth' (Machine.runAll r frame nesting scope ops s)
        (Machine.runAll r frame nesting scope ops s') ∧
      (Machine.runAll r frame nesting scope ops s).drawn = new ++ s.drawn ∧
      (Machine.runAll r frame nesting scope ops s').drawn = new ++ s'.drawn := by
  induction ops generalizing depth s s' with
  | nil => exact ⟨depth, [], h, rfl, rfl⟩
  | cons op ops ih =>
    obtain ⟨depth₁, new₁, ho₁, h₁, hd, hd'⟩ := h.run r frame nesting scope ho
    obtain ⟨depth₂, new₂, h₂, hd₂, hd₂'⟩ := ih h₁ ho₁
    refine ⟨depth₂, new₂ ++ new₁, h₂, ?_, ?_⟩
    · rw [List.append_assoc, ← hd]
      exact hd₂
    · rw [List.append_assoc, ← hd']
      exact hd₂'

theorem eq_runOf_of_emit {s : Machine α} {text : String} {run : TextRun α}
    (h : (s.emit frame text).drawn = run :: s.drawn) :
    ∃ count, run = runOf frame s.stack.current text count := by
  unfold emit at h
  split at h
  · exact absurd h.symm (List.cons_ne_self _ _)
  · exact ⟨text.length, (List.cons.inj h).1.symm⟩

/-- Texts that are shown in the same state are placed alike, whatever they are. -/
theorem placedAlike_of_emit {s s' : Machine α} (h : s'.stack.current = s.stack.current)
    {text text' : String} {run run' : TextRun α} (hd : (s.emit frame text).drawn = run :: s.drawn)
    (hd' : (s'.emit frame text').drawn = run' :: s'.drawn) : run.PlacedAlike run' := by
  obtain ⟨count, rfl⟩ := eq_runOf_of_emit frame hd
  obtain ⟨count', rfl⟩ := eq_runOf_of_emit frame hd'
  rw [h]
  exact ⟨rfl, rfl, rfl⟩

/-- Operations that differ in shown strings only place their texts alike in the same state. -/
theorem placedAlike_of_run {s s' : Machine α} (h : s'.stack.current = s.stack.current) {op op' : Operation α}
    (ho : op.hushed = op'.hushed) (hs : op.showsText = true) {run run' : TextRun α}
    (hd : (s.run r frame nesting scope op).drawn = run :: s.drawn)
    (hd' : (s'.run r frame nesting scope op').drawn = run' :: s'.drawn) : run.PlacedAlike run' := by
  obtain ⟨operator, vs⟩ := op
  obtain ⟨operator', vs'⟩ := op'
  obtain ⟨hoperator, -, hrest⟩ := Operation.hushed_eq ho
  obtain rfl : operator' = operator := hoperator
  rw [if_pos hs] at hrest
  unfold Machine.run Machine.step at hd hd'
  rcases Command.ofOperation?_hushed hrest hs with ⟨hc, hc'⟩ | ⟨c, c', hc, hc', halike⟩
  · rw [hc] at hd
    exact absurd hd.symm (List.cons_ne_self _ _)
  · rw [hc] at hd
    rw [hc'] at hd'
    cases halike with
    | show_ bytes bytes' => exact placedAlike_of_emit frame h hd hd'
    | showPieces pieces pieces' => exact placedAlike_of_emit frame h hd hd'
    | showOnNextLine bytes bytes' =>
      have hnext : (s'.modify (·.advanceLine)).stack.current = (s.modify (·.advanceLine)).stack.current :=
        congrArg GraphicsState.advanceLine h
      exact placedAlike_of_emit frame hnext hd hd'

/-- Two programs that differ in shown strings only, run from the same state, leave states that differ in the
place of the pen only. An operation that starts a line behind them leaves the same state in force, and until a
state from before it is taken back the same is drawn; the next text is then placed alike, whatever it is. -/
theorem runAll_hushed {ops ops' : List (Operation α)} (ho : ops.map Operation.hushed = ops'.map Operation.hushed)
    (s : Machine α) :
    SameButPen (runAll r frame nesting scope ops s) (runAll r frame nesting scope ops' s) ∧
      ∀ start c, Command.ofOperation? start = some c → c.startsLine = true →
        ∀ between, Operation.staysAbove 0 between = true →
          let t := runAll r frame nesting scope (ops ++ [start]) s
          let t' := runAll r frame nesting scope (ops' ++ [start]) s
          let u := runAll r frame nesting scope between t
          let u' := runAll r frame nesting scope between t'
          t'.stack.current = t.stack.current ∧ u'.stack.current = u.stack.current ∧
            (∃ new, u.drawn = new ++ t.drawn ∧ u'.drawn = new ++ t'.drawn) ∧
            ∀ shown shown' : Operation α, shown.hushed = shown'.hushed → shown.showsText = true →
              ∀ run run', (u.run r frame nesting scope shown).drawn = run :: u.drawn →
                (u'.run r frame nesting scope shown').drawn = run' :: u'.drawn → run.PlacedAlike run' := by
  have hprogram := (SameButPen.refl s).runAll r frame nesting scope ho
  refine ⟨hprogram, ?_⟩
  intro start c hc hstart between hbetween t t' u u'
  have hlast : ∀ ops : List (Operation α), runAll r frame nesting scope (ops ++ [start]) s =
      (runAll r frame nesting scope ops s).perform r frame (invoke r frame nesting) scope c := by
    intro ops
    rw [runAll, List.foldl_append, List.foldl_cons, List.foldl_nil, run, step, hc]
    rfl
  have ht : t = _ := hlast ops
  have ht' : t' = _ := hlast ops'
  have hcurrent : t'.stack.current = t.stack.current := by
    rw [ht, ht']
    exact hprogram.startLine hstart scope
  have hpen : SameButPen t t' := by
    rw [ht, ht']
    exact hprogram.perform (invoke_addsOnly r frame nesting) scope c
  obtain ⟨depth, new, hstep, hd, hd'⟩ := (hpen.inStep hcurrent).runAll r frame nesting scope hbetween
  refine ⟨hcurrent, hstep.current, ⟨new, hd, hd'⟩, ?_⟩
  intro shown shown' hshown hshows run run' hrun hrun'
  exact placedAlike_of_run r frame nesting scope hstep.current hshown hshows hrun hrun'

/-- Strings are shown byte by byte, and there are no forms. -/
def bytewise : Resolver (Exact .plain) where
  form _ _ := none
  text _ _ bytes := String.ofList (Latin1.decode bytes)
  operations _ := []

/-- A page of the usual height. -/
def letterFrame : PageFrame (Exact .plain) := ⟨0, 0, (792 : Nat)⟩

/-- A text in a font of ten points. -/
def tenPoints (bytes : Bytes) : List (Operation (Exact .plain)) :=
  [⟨"Tf", [.name [0x46], .int 10]⟩, ⟨"Tj", [.string bytes]⟩]

/-- Behind texts of two lengths a line is started, a state from there is taken back, and the next texts, of
other lengths again, are placed alike. -/
theorem runAll_hushed_line :
    let start : Operation (Exact .plain) := ⟨"Td", [.int 5, .int 7]⟩
    let between : List (Operation (Exact .plain)) := [⟨"q", []⟩, ⟨"BT", []⟩, ⟨"Q", []⟩]
    let u := runAll bytewise letterFrame 32 .nothing between
      (runAll bytewise letterFrame 32 .nothing (tenPoints [0x61] ++ [start]) .initial)
    let u' := runAll bytewise letterFrame 32 .nothing between
      (runAll bytewise letterFrame 32 .nothing (tenPoints [0x61, 0x62] ++ [start]) .initial)
    (tenPoints [0x61]).map Operation.hushed = (tenPoints [0x61, 0x62]).map Operation.hushed ∧
      ∃ run run', (u.run bytewise letterFrame 32 .nothing ⟨"'", [.string [0x63]]⟩).drawn = run :: u.drawn ∧
        (u'.run bytewise letterFrame 32 .nothing ⟨"'", [.string [0x64, 0x65]]⟩).drawn = run' :: u'.drawn ∧
        run.text = "c" ∧ run'.text = "de" ∧ run.PlacedAlike run' := by
  intro start between u u'
  have ho : (tenPoints [0x61]).map Operation.hushed = (tenPoints [0x61, 0x62]).map Operation.hushed := rfl
  refine ⟨ho, _, _, rfl, rfl, rfl, rfl, ?_⟩
  have hline := (runAll_hushed bytewise letterFrame 32 .nothing ho .initial).2 start _ rfl rfl between rfl
  exact hline.2.2.2 ⟨"'", [.string [0x63]]⟩ ⟨"'", [.string [0x64, 0x65]]⟩ rfl rfl _ _ rfl rfl

/-- A `Td` without operands starts no line, and leaves the pen where the text took it. A `Q` behind a `BT`
takes the pen back to where it was when its state was saved, and the next text is placed there. -/
theorem runAll_hushed_pen :
    let skipped : List (Operation (Exact .plain)) := [⟨"Td", []⟩]
    let undone : List (Operation (Exact .plain)) := [⟨"q", []⟩, ⟨"BT", []⟩, ⟨"Q", []⟩, ⟨"Tj", [.string [0x78]]⟩]
    (tenPoints [0x61]).map Operation.hushed = (tenPoints [0x61, 0x62]).map Operation.hushed ∧
      (runAll bytewise letterFrame 32 .nothing (tenPoints [0x61] ++ skipped) .initial).stack.current.textMatrix.e ≠
        (runAll bytewise letterFrame 32 .nothing (tenPoints [0x61, 0x62] ++ skipped)
          .initial).stack.current.textMatrix.e ∧
      ((runAll bytewise letterFrame 32 .nothing (tenPoints [0x61] ++ undone) .initial).drawn.map (·.box.x)).head? ≠
        ((runAll bytewise letterFrame 32 .nothing (tenPoints [0x61, 0x62] ++ undone)
          .initial).drawn.map (·.box.x)).head? := by
  refine ⟨rfl, ?_, ?_⟩
  · decide +kernel
  · decide +kernel

end Machine

end Marginalia
