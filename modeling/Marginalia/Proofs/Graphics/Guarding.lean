import Marginalia.Proofs.Graphics.Isolation

/-!
A program that takes back as many states as it saves, and none that it did not save, does not see the states
saved before it. It runs the same above any of them.
-/

namespace Marginalia

variable {α : Type}

namespace Machine

/-- The machine with further states saved beneath all others. -/
def onto (base : List (GraphicsState α)) (s : Machine α) : Machine α :=
  { s with stack := { s.stack with saved := s.stack.saved ++ base } }

/-- The machine with further states saved beneath its floor. -/
def raised (base : List (GraphicsState α)) (s : Machine α) : Machine α :=
  { s.onto base with floor := s.floor + base.length }

variable (base : List (GraphicsState α)) (s : Machine α)

@[simp] theorem current_onto : (s.onto base).stack.current = s.stack.current := rfl

@[simp] theorem drawn_onto : (s.onto base).drawn = s.drawn := rfl

/-- What was saved above other states is taken back above them. -/
theorem restore_raised : (s.raised base).restore = s.restore.raised base := by
  have hdepth : (s.raised base).stack.depth = s.stack.depth + base.length := List.length_append
  have hfloor : (s.raised base).floor = s.floor + base.length := rfl
  unfold restore
  rw [hdepth, hfloor]
  by_cases h : s.floor < s.stack.depth
  · rw [if_pos h, if_pos (by omega)]
    cases hs : s.stack.saved with
    | nil => simp [GraphicsStack.depth, hs] at h
    | cons g rest => simp [raised, onto, GraphicsStack.restore, hs]
  · rw [if_neg h, if_neg (by omega)]

/-- A machine that has saved something restores it, whatever is saved beneath. -/
theorem restore_onto (hf : s.floor < s.stack.depth) : (s.onto base).restore = s.restore.onto base := by
  have hf' : (s.onto base).floor < (s.onto base).stack.depth := by
    have hdepth : (s.onto base).stack.depth = s.stack.depth + base.length := List.length_append
    rw [hdepth]
    exact Nat.lt_add_right _ hf
  cases hs : s.stack.saved with
  | nil => simp [GraphicsStack.depth, hs] at hf
  | cons g rest =>
    simp only [restore, hf, hf', if_true]
    simp [onto, GraphicsStack.restore, hs]

/-- That running forms does not depend on what is saved, nor on the floor. -/
def IgnoresSaved (invoke : Scope → Bytes → Machine α → Machine α) : Prop :=
  ∀ scope name (s s' : Machine α), s'.stack.current = s.stack.current → s'.chain = s.chain →
    s'.drawn = s.drawn → (∃ base, s'.stack.saved = s.stack.saved ++ base) →
    (invoke scope name s').drawn = (invoke scope name s).drawn

variable {invoke : Scope → Bytes → Machine α → Machine α}

theorem invoke_onto (ha : AddsOnly invoke) (hi : IgnoresSaved invoke) (scope : Scope) (name : Bytes) :
    invoke scope name (s.onto base) = (invoke scope name s).onto base := by
  have hdrawn := hi scope name s (s.onto base) rfl rfl rfl ⟨base, rfl⟩
  obtain ⟨new, hn⟩ := ha scope name s
  obtain ⟨new', hn'⟩ := ha scope name (s.onto base)
  rw [hn, hn'] at hdrawn
  rw [hn, hn']
  simp only [onto] at hdrawn ⊢
  rw [hdrawn]

theorem invoke_raised (ha : AddsOnly invoke) (hi : IgnoresSaved invoke) (scope : Scope) (name : Bytes) :
    invoke scope name (s.raised base) = (invoke scope name s).raised base := by
  have hdrawn := hi scope name s (s.raised base) rfl rfl rfl ⟨base, rfl⟩
  obtain ⟨new, hn⟩ := ha scope name s
  obtain ⟨new', hn'⟩ := ha scope name (s.raised base)
  rw [hn, hn'] at hdrawn
  rw [hn, hn']
  simp only [raised, onto] at hdrawn ⊢
  rw [hdrawn]

variable [Scalar α]

theorem emit_raised (frame : PageFrame α) (text : String) :
    (s.raised base).emit frame text = (s.emit frame text).raised base := by
  unfold emit
  split <;> rfl

theorem emit_onto (frame : PageFrame α) (text : String) :
    (s.onto base).emit frame text = (s.emit frame text).onto base := by
  unfold emit
  split <;> rfl

section Forms

variable {r : Resolver α} {frame : PageFrame α}

/-- Above a floor every operation does the same whatever is saved beneath. -/
theorem step_raised (ha : AddsOnly invoke) (hi : IgnoresSaved invoke) (scope : Scope) (op : Operation α) :
    (s.raised base).step r frame invoke scope op = (s.step r frame invoke scope op).raised base := by
  unfold step
  cases Command.ofOperation? op with
  | none => rfl
  | some c =>
    cases c with
    | restore => exact restore_raised base s
    | show_ bytes => exact emit_raised base s frame _
    | showOnNextLine bytes => exact emit_raised base (s.modify (·.advanceLine)) frame _
    | showPieces pieces => exact emit_raised base s frame _
    | invoke name => exact invoke_raised base s ha hi scope name
    | _ => rfl

theorem foldl_raised (ha : AddsOnly invoke) (hi : IgnoresSaved invoke) (scope : Scope)
    (ops : List (Operation α)) :
    ops.foldl (step r frame invoke scope) (s.raised base) =
      (ops.foldl (step r frame invoke scope) s).raised base := by
  induction ops generalizing s with
  | nil => rfl
  | cons op ops ih => rw [List.foldl_cons, List.foldl_cons, step_raised base s ha hi, ih]

variable (r frame)

/-- Forms do not depend on what was saved before them. -/
theorem invoke_ignoresSaved (nesting : Nat) : IgnoresSaved (Machine.invoke r frame nesting) := by
  induction nesting with
  | zero => exact fun scope name s s' _ _ hdrawn _ => hdrawn
  | succ nesting ih =>
    intro scope name s s' hcurrent hchain hdrawn ⟨base, hsaved⟩
    unfold Machine.invoke
    cases r.form scope name with
    | none => exact hdrawn
    | some form =>
      simp only [hchain]
      split
      · exact hdrawn
      · have hentered : s'.enter form = (s.enter form).raised base := by
          have hlength : s'.stack.saved.length = s.stack.saved.length + base.length := by
            rw [hsaved, List.length_append]
          unfold enter
          cases form.matrix with
          | none => simp [raised, onto, GraphicsStack.save, GraphicsStack.depth, hcurrent, hchain, hdrawn, hsaved]; omega
          | some m => simp [raised, onto, GraphicsStack.save, GraphicsStack.modify, GraphicsStack.depth, hcurrent, hchain, hdrawn, hsaved]; omega
        rw [hentered]
        simp only [foldl_raised base _ (invoke_addsOnly r frame nesting) ih]
        rfl

/-- An operation does the same whatever is saved beneath, unless there is nothing else to take back. -/
theorem run_onto (base : List (GraphicsState α)) (s : Machine α) (nesting : Nat) (scope : Scope) (op : Operation α)
    (h : Command.ofOperation? op = some .restore → s.floor < s.stack.depth) :
    (s.onto base).run r frame nesting scope op = (s.run r frame nesting scope op).onto base := by
  unfold run step
  cases hc : Command.ofOperation? op with
  | none => rfl
  | some c =>
    cases c with
    | restore => exact restore_onto base s (h hc)
    | show_ bytes => exact emit_onto base s frame _
    | showOnNextLine bytes => exact emit_onto base (s.modify (·.advanceLine)) frame _
    | showPieces pieces => exact emit_onto base s frame _
    | invoke name =>
      exact invoke_onto base s (invoke_addsOnly r frame nesting) (invoke_ignoresSaved r frame nesting) scope name
    | _ => rfl

end Forms

end Machine

variable [Scalar α]

/-- That a program, entered with so many states saved, takes back none but these and those that it saves, and
leaves none saved. -/
def Operation.areNested : Nat → List (Operation α) → Bool
  | depth, [] => depth == 0
  | depth, op :: ops =>
    match Command.ofOperation? op with
    | some .save => areNested (depth + 1) ops
    | some .restore => decide (0 < depth) && areNested (depth - 1) ops
    | _ => areNested depth ops

namespace Machine

variable {r : Resolver α} {frame : PageFrame α}

theorem emit_keeps (s : Machine α) (text : String) :
    (s.emit frame text).stack.saved = s.stack.saved ∧ (s.emit frame text).floor = s.floor := by
  unfold emit
  split <;> exact ⟨rfl, rfl⟩

variable (r frame) in
/-- Operations other than the saving and the restoring of states leave what is saved as it is. -/
theorem run_keeps (nesting : Nat) (scope : Scope) (s : Machine α) {op : Operation α}
    (hs : Command.ofOperation? op ≠ some .save) (hr : Command.ofOperation? op ≠ some .restore) :
    (s.run r frame nesting scope op).stack.saved = s.stack.saved ∧
      (s.run r frame nesting scope op).floor = s.floor := by
  unfold run step
  cases hc : Command.ofOperation? op with
  | none => exact ⟨rfl, rfl⟩
  | some c =>
    cases c with
    | save => exact absurd hc hs
    | restore => exact absurd hc hr
    | show_ bytes => exact emit_keeps s _
    | showOnNextLine bytes => exact emit_keeps (s.modify (·.advanceLine)) _
    | showPieces pieces => exact emit_keeps s _
    | invoke name =>
      obtain ⟨new, hn⟩ := invoke_addsOnly r frame nesting scope name s
      have hperform : s.perform r frame (invoke r frame nesting) scope (.invoke name) =
          { s with drawn := new ++ s.drawn } := hn
      simp only [hperform]
      exact ⟨trivial, trivial⟩
    | _ => exact ⟨rfl, rfl⟩

variable (r frame) in
/-- A program that takes back what it saves runs the same above states saved before, and leaves these. -/
theorem runAll_nested (base : List (GraphicsState α)) (nesting : Nat) (scope : Scope)
    {ops : List (Operation α)} {s : Machine α} (h : Operation.areNested s.stack.depth ops = true)
    (hf : s.floor = 0) :
    runAll r frame nesting scope ops (s.onto base) = (runAll r frame nesting scope ops s).onto base ∧
      (runAll r frame nesting scope ops s).stack.saved = [] := by
  induction ops generalizing s with
  | nil =>
    have hdepth : s.stack.depth = 0 := by simpa [Operation.areNested] using h
    exact ⟨rfl, List.eq_nil_of_length_eq_zero hdepth⟩
  | cons op ops ih =>
    have hnext : (Command.ofOperation? op = some .restore → s.floor < s.stack.depth) ∧
        Operation.areNested (s.run r frame nesting scope op).stack.depth ops = true ∧
        (s.run r frame nesting scope op).floor = 0 := by
      unfold Operation.areNested at h
      split at h
      · rename_i hc
        have hsave : s.run r frame nesting scope op = { s with stack := s.stack.save } := by
          simp only [run, step, hc, perform]
        rw [hsave]
        refine ⟨fun hr => ?_, h, hf⟩
        rw [hc] at hr
        cases hr
      · rename_i hc
        simp only [Bool.and_eq_true, decide_eq_true_eq] at h
        obtain ⟨hpos, h⟩ := h
        have hlt : s.floor < s.stack.depth := by omega
        refine ⟨fun _ => hlt, ?_⟩
        simp only [run, step, hc, perform, restore, hlt, if_true]
        refine ⟨?_, hf⟩
        cases hs : s.stack.saved with
        | nil => simp [GraphicsStack.depth, hs] at hpos
        | cons g rest => simpa [GraphicsStack.depth, GraphicsStack.restore, hs] using h
      · rename_i hs hr
        obtain ⟨hsaved, hfloor⟩ := run_keeps r frame nesting scope s hs hr
        refine ⟨fun hc => absurd hc hr, ?_, hfloor.trans hf⟩
        simpa only [GraphicsStack.depth, hsaved] using h
    obtain ⟨hrestore, hnested, hfloor⟩ := hnext
    have hrest := ih hnested hfloor
    have honto := run_onto r frame base s nesting scope op hrestore
    simp only [runAll, List.foldl_cons] at hrest ⊢
    rw [honto]
    exact hrest

variable (r frame) in
/-- Behind a saving of the state, a program that takes back what it saves draws what it draws without, and the
saved state is the next one to be taken back. -/
theorem runAll_guarded (nesting : Nat) (scope : Scope) {ops : List (Operation α)}
    (h : Operation.areNested 0 ops = true) :
    (runAll r frame nesting scope (⟨"q", []⟩ :: ops) .initial).drawn =
        (runAll r frame nesting scope ops .initial).drawn ∧
      (runAll r frame nesting scope (⟨"q", []⟩ :: ops) .initial).restore.stack.current = .initial := by
  have hsave : (initial : Machine α).run r frame nesting scope ⟨"q", []⟩ =
      (initial : Machine α).onto [GraphicsState.initial] := rfl
  obtain ⟨honto, hsaved⟩ := runAll_nested r frame [GraphicsState.initial] nesting scope
    (s := initial) h rfl
  have hfloor : (runAll r frame nesting scope ops .initial).floor = 0 :=
    (Within.foldl (invoke_addsOnly r frame nesting) (Nat.le_refl _) scope ops (.refl initial)).floor
  have hwhole : runAll r frame nesting scope (⟨"q", []⟩ :: ops) .initial =
      (runAll r frame nesting scope ops .initial).onto [GraphicsState.initial] := by
    rw [← honto, ← hsave]
    rfl
  rw [hwhole]
  refine ⟨rfl, ?_⟩
  simp [restore, onto, GraphicsStack.depth, GraphicsStack.restore, hsaved, hfloor]

end Machine

end Marginalia
