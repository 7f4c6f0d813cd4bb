import Marginalia.Graphics.Machine

/-!
A form leaves nothing behind but the runs that it draws. Whatever its program saves and restores, the
states saved before it was entered stay as they were, and so do the state in force, the floor and the
forms under way.
-/

namespace Marginalia

namespace GraphicsStack

variable {α : Type}

/-- Restoring down to a depth uncovers the states that were saved first. -/
theorem restoreTo_saved {s : GraphicsStack α} {base : List (GraphicsState α)}
    (h : base <:+ s.saved) : (s.restoreTo base.length).saved = base := by
  obtain ⟨above, ha⟩ := h
  induction above generalizing s with
  | nil => simp [restoreTo, depth, Nat.repeat, ← ha]
  | cons g above ih =>
    have hn : s.depth - base.length = (above ++ base).length - base.length + 1 := by
      simp only [depth, ← ha, List.length_append, List.length_cons]
      omega
    have hs : s.restore = ⟨g, above ++ base⟩ := by simp [restore, ← ha]
    have hc : Nat.repeat restore (s.depth - base.length) s =
        Nat.repeat restore ((above ++ base).length - base.length) s.restore := by
      rw [hn]
      generalize (above ++ base).length - base.length = n
      induction n with
      | zero => rfl
      | succ n ih => exact congrArg restore ih
    rw [restoreTo, hc, hs]
    exact ih (s := ⟨g, above ++ base⟩) rfl

end GraphicsStack

namespace Machine

variable {α : Type}

/-- `Q` takes back the state saved last, if that was saved above the floor, and does nothing otherwise. -/
theorem restore_cases (s : Machine α) :
    (s.stack.depth ≤ s.floor ∧ s.restore = s) ∨
      ∃ g rest, s.floor < s.stack.depth ∧ s.stack.saved = g :: rest ∧
        s.restore = { s with stack := ⟨g, rest⟩ } := by
  unfold Machine.restore
  by_cases hlt : s.floor < s.stack.depth
  · right
    cases hs : s.stack.saved with
    | nil => simp [GraphicsStack.depth, hs] at hlt
    | cons g rest => exact ⟨g, rest, hlt, rfl, by rw [if_pos hlt, GraphicsStack.restore, hs]⟩
  · exact .inl ⟨Nat.le_of_not_lt hlt, if_neg hlt⟩

theorem drawn_restore (s : Machine α) : s.restore.drawn = s.drawn := by
  unfold Machine.restore
  split <;> rfl

/-- What a program run from `e` keeps: the states saved before it are beneath all others, the floor
and the forms under way are the same, and runs are only added. -/
structure Within (e s : Machine α) : Prop where
  saved : e.stack.saved <:+ s.stack.saved
  floor : s.floor = e.floor
  chain : s.chain = e.chain
  drawn : e.drawn <:+ s.drawn

theorem Within.refl (e : Machine α) : Within e e :=
  ⟨List.suffix_rfl, rfl, rfl, List.suffix_rfl⟩

theorem Within.modify {e s : Machine α} (h : Within e s)
    (f : GraphicsState α → GraphicsState α) : Within e (s.modify f) :=
  ⟨h.saved, h.floor, h.chain, h.drawn⟩

theorem Within.draw {e s : Machine α} (h : Within e s) (new : List (TextRun α)) :
    Within e { s with drawn := new ++ s.drawn } :=
  ⟨h.saved, h.floor, h.chain, h.drawn.trans (List.suffix_append _ _)⟩

/-- A restored state was saved above the floor, and the floor is where the states of `e` begin. -/
theorem Within.restore {e s : Machine α} (h : Within e s) (he : e.stack.depth ≤ e.floor) :
    Within e s.restore := by
  unfold Machine.restore
  split
  · rename_i hf
    cases hs : s.stack.saved with
    | nil => simp [GraphicsStack.depth, hs] at hf
    | cons g rest =>
      have hlt : e.stack.saved.length < s.stack.saved.length := by
        rw [h.floor] at hf
        exact Nat.lt_of_le_of_lt he hf
      refine ⟨?_, h.floor, h.chain, h.drawn⟩
      have hsuf := h.saved
      rw [hs, List.suffix_cons_iff] at hsuf
      rcases hsuf with heq | hsuf
      · simp [hs, heq] at hlt
      · simpa [GraphicsStack.restore, hs] using hsuf
  · exact h

variable [Scalar α]

theorem Within.emit {e s : Machine α} (h : Within e s) (frame : PageFrame α) (text : String) :
    Within e (s.emit frame text) := by
  unfold Machine.emit
  split
  · exact h
  · exact ⟨h.saved, h.floor, h.chain, h.drawn.trans (List.suffix_cons _ _)⟩

section Forms

variable (r : Resolver α) (frame : PageFrame α)

/-- That forms, run by `invoke`, add runs and change nothing else. -/
def AddsOnly (invoke : Scope → Bytes → Machine α → Machine α) : Prop :=
  ∀ scope name s, ∃ new, invoke scope name s = { s with drawn := new ++ s.drawn }

variable {r frame}

theorem Within.perform {invoke : Scope → Bytes → Machine α → Machine α} (hi : AddsOnly invoke)
    {e s : Machine α} (h : Within e s) (he : e.stack.depth ≤ e.floor) (scope : Scope)
    (c : Command α) : Within e (s.perform r frame invoke scope c) := by
  cases c with
  | save => exact ⟨h.saved.trans (List.suffix_cons _ _), h.floor, h.chain, h.drawn⟩
  | restore => exact h.restore he
  | endText => exact h
  | show_ bytes => exact h.emit _ _
  | showPieces pieces => exact h.emit _ _
  | showOnNextLine bytes => exact (h.modify _).emit _ _
  | invoke name =>
    obtain ⟨new, hn⟩ := hi scope name s
    simpa only [Machine.perform, hn] using h.draw new
  | _ => exact h.modify _

theorem Within.step {invoke : Scope → Bytes → Machine α → Machine α} (hi : AddsOnly invoke)
    {e s : Machine α} (h : Within e s) (he : e.stack.depth ≤ e.floor) (scope : Scope)
    (op : Operation α) : Within e (s.step r frame invoke scope op) := by
  unfold Machine.step
  split
  · exact h.perform hi he scope _
  · exact h

theorem Within.foldl {invoke : Scope → Bytes → Machine α → Machine α} (hi : AddsOnly invoke)
    {e : Machine α} (he : e.stack.depth ≤ e.floor) (scope : Scope) (ops : List (Operation α)) :
    ∀ {s : Machine α}, Within e s →
      Within e (ops.foldl (Machine.step r frame invoke scope) s) := by
  induction ops with
  | nil => intro s h; exact h
  | cons op ops ih => intro s h; exact ih (h.step hi he scope op)

theorem enter_saved (s : Machine α) (form : Form α) :
    (s.enter form).stack.saved = s.stack.current :: s.stack.saved := by
  unfold enter
  cases form.matrix <;> rfl

theorem enter_floor (s : Machine α) (form : Form α) :
    (s.enter form).floor = (s.enter form).stack.depth := rfl

/-- What a form was entered from is back when it is left, but for the runs drawn inside. -/
theorem Within.leave {s : Machine α} {form : Form α} {t : Machine α}
    (h : Within (s.enter form) t) :
    ∃ new, t.leave (s.enter form) s = { s with drawn := new ++ s.drawn } := by
  obtain ⟨new, hn⟩ := h.drawn
  have hsaved : (t.stack.restoreTo (s.enter form).floor).saved =
      s.stack.current :: s.stack.saved := by
    rw [enter_floor, ← enter_saved s form]
    exact GraphicsStack.restoreTo_saved h.saved
  refine ⟨new, ?_⟩
  have hdrawn : t.drawn = new ++ s.drawn := hn.symm
  have hchain : t.chain.tail = s.chain := by rw [h.chain]; rfl
  simp only [Machine.leave, GraphicsStack.restore, hsaved, hdrawn, hchain]

variable (r frame)

/-- However deep forms are followed, running one adds runs and changes nothing else. -/
theorem invoke_addsOnly (nesting : Nat) : AddsOnly (invoke r frame nesting) := by
  induction nesting with
  | zero => exact fun _ _ s => ⟨[], rfl⟩
  | succ nesting ih =>
    intro scope name s
    unfold invoke
    cases r.form scope name with
    | none => exact ⟨[], rfl⟩
    | some form =>
      by_cases hc : s.chain.contains form.id
      · simp only [hc, if_true]
        exact ⟨[], rfl⟩
      · have hw : Within (s.enter form) ((r.operations form.content).foldl
            (step r frame (invoke r frame nesting) form.scope) (s.enter form)) :=
          Within.foldl ih (Nat.le_of_eq (enter_floor s form).symm) form.scope _ (Within.refl _)
        simpa only [hc, if_false, Bool.false_eq_true] using hw.leave

/-- `Do`, with whatever operands, leaves the state in force, the saved states, the floor and the forms
under way as they were, and adds its runs behind those drawn before. -/
theorem run_do_isolated (nesting : Nat) (scope : Scope) (operands : List (Operand α))
    (s : Machine α) :
    (s.run r frame nesting scope ⟨"Do", operands⟩).stack = s.stack ∧
      (s.run r frame nesting scope ⟨"Do", operands⟩).floor = s.floor ∧
      (s.run r frame nesting scope ⟨"Do", operands⟩).chain = s.chain ∧
      ∃ new, (s.run r frame nesting scope ⟨"Do", operands⟩).runs = s.runs ++ new := by
  have hrun : ∃ new, s.run r frame nesting scope ⟨"Do", operands⟩ =
      { s with drawn := new ++ s.drawn } := by
    unfold run step
    cases hc : Command.ofOperation? (⟨"Do", operands⟩ : Operation α) with
    | none => exact ⟨[], rfl⟩
    | some c =>
      have hinvoke : ∃ name, c = .invoke name := by
        simp only [Command.ofOperation?] at hc
        split at hc
        · exact ⟨_, (Option.some.inj hc).symm⟩
        · cases hc
      obtain ⟨name, rfl⟩ := hinvoke
      exact invoke_addsOnly r frame nesting scope name s
  obtain ⟨new, hn⟩ := hrun
  rw [hn]
  exact ⟨rfl, rfl, rfl, new.reverse, by simp [runs]⟩

end Forms

end Machine

end Marginalia
