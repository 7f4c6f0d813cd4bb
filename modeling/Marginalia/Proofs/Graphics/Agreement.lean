import Marginalia.Proofs.Graphics.Isolation

/-!
Two documents around a program that agree on the forms and fonts that the program and its forms use make
it draw the same.
-/

namespace Marginalia

variable {α : Type}

namespace Machine

/-- That the font keys of the state in force and of all saved states are in `P`. -/
structure KeysIn (P : Bytes → Prop) (s : Machine α) : Prop where
  current : P s.stack.current.fontKey
  saved : ∀ g ∈ s.stack.saved, P g.fontKey

variable {P : Bytes → Prop} {s : Machine α}

theorem KeysIn.modify (h : KeysIn P s) {f : GraphicsState α → GraphicsState α}
    (hf : P (f s.stack.current).fontKey) : KeysIn P (s.modify f) :=
  ⟨hf, h.saved⟩

theorem KeysIn.draw (h : KeysIn P s) (new : List (TextRun α)) :
    KeysIn P { s with drawn := new ++ s.drawn } :=
  ⟨h.current, h.saved⟩

theorem KeysIn.restore (h : KeysIn P s) : KeysIn P s.restore := by
  unfold Machine.restore
  split
  · unfold GraphicsStack.restore
    cases hs : s.stack.saved with
    | nil => exact ⟨h.current, by simp [hs]⟩
    | cons g rest =>
      have hsaved := h.saved
      rw [hs] at hsaved
      exact ⟨hsaved g (by simp), fun g' hg' => hsaved g' (by simp [hg'])⟩
  · exact h

end Machine

variable [Scalar α]

/-- That all fonts which an operation selects have keys in `P`. -/
def Operation.SelectsIn (P : Bytes → Prop) (op : Operation α) : Prop :=
  ∀ key size, Command.ofOperation? op = some (.selectFont key size) → P key

namespace Resolver

/-- The same forms in the scopes in `S`, from which forms do not lead out, and the same text for font
keys in `P`, which are the only ones that forms select. -/
structure AgreeOn (S : Scope → Prop) (P : Bytes → Prop) (r r' : Resolver α) : Prop where
  operations : ∀ content, r'.operations content = r.operations content
  form : ∀ scope name, S scope → r'.form scope name = r.form scope name
  scope : ∀ scope name f, S scope → r.form scope name = some f → S f.scope
  fonts : ∀ scope name f, S scope → r.form scope name = some f →
    ∀ op ∈ r.operations f.content, op.SelectsIn P
  text : ∀ scope key bytes, S scope → P key → r'.text scope key bytes = r.text scope key bytes

end Resolver

namespace Machine

section Keys

variable {P : Bytes → Prop} {s : Machine α}

theorem KeysIn.emit (h : KeysIn P s) (frame : PageFrame α) (text : String) :
    KeysIn P (s.emit frame text) := by
  unfold Machine.emit
  split
  · exact h
  · exact ⟨h.current, h.saved⟩

theorem KeysIn.enter (h : KeysIn P s) (form : Form α) : KeysIn P (s.enter form) := by
  have hsaved : ∀ g ∈ s.stack.current :: s.stack.saved, P g.fontKey := by
    intro g hg
    rcases List.mem_cons.mp hg with rfl | hg
    · exact h.current
    · exact h.saved g hg
  unfold Machine.enter
  cases form.matrix with
  | none => exact ⟨h.current, hsaved⟩
  | some m => exact ⟨h.current, hsaved⟩

end Keys

variable {S : Scope → Prop} {P : Bytes → Prop} {r r' : Resolver α} {frame : PageFrame α}

/-- That two ways of running forms do the same from states with such font keys, and leave such a state. -/
def InvokeAgree (S : Scope → Prop) (P : Bytes → Prop)
    (invoke invoke' : Scope → Bytes → Machine α → Machine α) : Prop :=
  ∀ scope name s, S scope → KeysIn P s →
    invoke' scope name s = invoke scope name s ∧ KeysIn P (invoke scope name s)

variable (frame) in
theorem perform_agree (h : r.AgreeOn S P r') {invoke invoke' : Scope → Bytes → Machine α → Machine α}
    (hi : InvokeAgree S P invoke invoke') {scope : Scope} (hs : S scope) {s : Machine α}
    (hk : KeysIn P s) {c : Command α} (hc : ∀ key size, c = .selectFont key size → P key) :
    s.perform r' frame invoke' scope c = s.perform r frame invoke scope c ∧
      KeysIn P (s.perform r frame invoke scope c) := by
  have hdecoded : ∀ {t : Machine α}, KeysIn P t → ∀ bytes,
      t.decoded r' scope bytes = t.decoded r scope bytes := fun ht bytes =>
    h.text scope _ bytes hs ht.current
  cases c with
  | save =>
    refine ⟨rfl, hk.current, fun g hg => ?_⟩
    rcases List.mem_cons.mp hg with rfl | hg
    · exact hk.current
    · exact hk.saved g hg
  | restore => exact ⟨rfl, hk.restore⟩
  | endText => exact ⟨rfl, hk⟩
  | selectFont key size => exact ⟨rfl, hk.modify (hc key size rfl)⟩
  | show_ bytes =>
    refine ⟨?_, hk.emit frame _⟩
    simp only [perform, hdecoded hk]
  | showOnNextLine bytes =>
    have hk' : KeysIn P (s.modify (·.advanceLine)) := hk.modify hk.current
    refine ⟨?_, hk'.emit frame _⟩
    simp only [perform, hdecoded hk']
  | showPieces pieces =>
    refine ⟨?_, hk.emit frame _⟩
    simp only [perform, List.map_congr_left fun bytes _ => hdecoded hk bytes]
  | invoke name => exact hi scope name s hs hk
  | _ => exact ⟨rfl, hk.modify hk.current⟩

variable (frame) in
theorem step_agree (h : r.AgreeOn S P r') {invoke invoke' : Scope → Bytes → Machine α → Machine α}
    (hi : InvokeAgree S P invoke invoke') {scope : Scope} (hs : S scope) {s : Machine α}
    (hk : KeysIn P s) {op : Operation α} (ho : op.SelectsIn P) :
    s.step r' frame invoke' scope op = s.step r frame invoke scope op ∧
      KeysIn P (s.step r frame invoke scope op) := by
  unfold Machine.step
  cases hc : Command.ofOperation? op with
  | none => exact ⟨rfl, hk⟩
  | some c =>
    refine perform_agree frame h hi hs hk fun key size he => ?_
    exact ho key size (hc.trans (congrArg some he))

theorem foldl_agree (h : r.AgreeOn S P r') {invoke invoke' : Scope → Bytes → Machine α → Machine α}
    (hi : InvokeAgree S P invoke invoke') {scope : Scope} (hs : S scope) {ops : List (Operation α)}
    (ho : ∀ op ∈ ops, op.SelectsIn P) {s : Machine α} (hk : KeysIn P s) :
    ops.foldl (step r' frame invoke' scope) s = ops.foldl (step r frame invoke scope) s ∧
      KeysIn P (ops.foldl (step r frame invoke scope) s) := by
  induction ops generalizing s with
  | nil => exact ⟨rfl, hk⟩
  | cons op ops ih =>
    obtain ⟨he, hk'⟩ := step_agree frame h hi hs hk (ho op (by simp))
    rw [List.foldl_cons, List.foldl_cons, he]
    exact ih (fun op' hop => ho op' (by simp [hop])) hk'

theorem invoke_agree (h : r.AgreeOn S P r') (nesting : Nat) :
    InvokeAgree S P (invoke r frame nesting) (invoke r' frame nesting) := by
  induction nesting with
  | zero => exact fun scope name s _ hk => ⟨rfl, hk⟩
  | succ nesting ih =>
    intro scope name s hs hk
    obtain ⟨new, hnew⟩ := invoke_addsOnly r frame (nesting + 1) scope name s
    refine ⟨?_, ?_⟩
    · unfold invoke
      rw [h.form scope name hs]
      cases hf : r.form scope name with
      | none => rfl
      | some form =>
        simp only [h.operations]
        rw [(foldl_agree h ih (h.scope scope name form hs hf) (h.fonts scope name form hs hf)
          (hk.enter form)).1]
    · rw [hnew]
      exact hk.draw new

/-- A program draws the same with resolvers that agree on what it uses. -/
theorem runAll_agree (h : r.AgreeOn S P r') (nesting : Nat) (scope : Scope) (hs : S scope)
    {ops : List (Operation α)} (ho : ∀ op ∈ ops, op.SelectsIn P) {s : Machine α} (hk : KeysIn P s) :
    runAll r' frame nesting scope ops s = runAll r frame nesting scope ops s ∧
      KeysIn P (runAll r frame nesting scope ops s) :=
  foldl_agree h (invoke_agree h nesting) hs ho hk

end Machine

end Marginalia
