import Mathlib.Data.Finset.Card
import Marginalia.Proofs.Number.Plain
import Marginalia.Graphics.Extraction
import Marginalia.Proofs.Graphics.Isolation

/-!
The limit on how deep forms are followed. A lower limit leaves runs out and does nothing else, because a form
that is passed over leaves the same state behind as one that is run. A limit that is not below the number of
forms leaves nothing out: forms under way are all different, so one that is a form too deep is under way already.
-/

namespace Marginalia

namespace Machine

variable {α : Type}

/-- That the second machine is the first but for further runs among those drawn. -/
def DrawsMore (s t : Machine α) : Prop :=
  ∃ drawn, s.drawn.Sublist drawn ∧ t = { s with drawn }

theorem DrawsMore.refl (s : Machine α) : DrawsMore s s := ⟨s.drawn, .refl _, rfl⟩

theorem DrawsMore.modify {s t : Machine α} (h : DrawsMore s t) (f : GraphicsState α → GraphicsState α) :
    DrawsMore (s.modify f) (t.modify f) := by
  obtain ⟨drawn, hd, rfl⟩ := h
  exact ⟨drawn, hd, rfl⟩

theorem DrawsMore.restore {s t : Machine α} (h : DrawsMore s t) : DrawsMore s.restore t.restore := by
  obtain ⟨drawn, hd, rfl⟩ := h
  unfold Machine.restore
  split
  · exact ⟨drawn, hd, rfl⟩
  · exact ⟨drawn, hd, rfl⟩

theorem DrawsMore.chain {s t : Machine α} (h : DrawsMore s t) : t.chain = s.chain := by
  obtain ⟨_, _, rfl⟩ := h
  rfl

theorem DrawsMore.runs {s t : Machine α} (h : DrawsMore s t) : s.runs.Sublist t.runs := by
  obtain ⟨_, hd, rfl⟩ := h
  exact hd.reverse

theorem DrawsMore.leave {s t outer outer' : Machine α} (h : DrawsMore s t) (ho : DrawsMore outer outer')
    (entered entered' : Machine α) (he : entered'.floor = entered.floor) :
    DrawsMore (s.leave entered outer) (t.leave entered' outer') := by
  obtain ⟨drawn, hd, rfl⟩ := h
  obtain ⟨_, _, rfl⟩ := ho
  refine ⟨drawn, hd, ?_⟩
  simp only [Machine.leave, he]

variable [Scalar α]

theorem DrawsMore.emit {s t : Machine α} (h : DrawsMore s t) (frame : PageFrame α) (text : String) :
    DrawsMore (s.emit frame text) (t.emit frame text) := by
  obtain ⟨drawn, hd, rfl⟩ := h
  unfold Machine.emit
  split
  · exact ⟨drawn, hd, rfl⟩
  · exact ⟨_, hd.cons_cons _, rfl⟩

theorem DrawsMore.enter {s t : Machine α} (h : DrawsMore s t) (form : Form α) :
    DrawsMore (s.enter form) (t.enter form) := by
  obtain ⟨drawn, hd, rfl⟩ := h
  exact ⟨drawn, hd, rfl⟩

section Limits

/-- That one way of running forms draws what another draws, and more. -/
def InvokesMore (invoke invoke' : Scope → Bytes → Machine α → Machine α) : Prop :=
  ∀ scope name s t, DrawsMore s t → DrawsMore (invoke scope name s) (invoke' scope name t)

variable {r : Resolver α} {frame : PageFrame α} {invoke invoke' : Scope → Bytes → Machine α → Machine α}

theorem DrawsMore.perform (hi : InvokesMore invoke invoke') {s t : Machine α} (h : DrawsMore s t) (scope : Scope)
    (c : Command α) : DrawsMore (s.perform r frame invoke scope c) (t.perform r frame invoke' scope c) := by
  -- What text is shown depends on the state in force, which is the same in both machines.
  have hdecoded : ∀ {s t : Machine α}, DrawsMore s t → t.decoded r scope = s.decoded r scope := by
    rintro s t ⟨_, _, rfl⟩
    rfl
  cases c with
  | save =>
    obtain ⟨drawn, hd, rfl⟩ := h
    exact ⟨drawn, hd, rfl⟩
  | restore => exact h.restore
  | endText => exact h
  | show_ bytes =>
    simp only [Machine.perform, hdecoded h]
    exact h.emit frame _
  | showOnNextLine bytes =>
    simp only [Machine.perform, hdecoded (h.modify _)]
    exact (h.modify _).emit frame _
  | showPieces pieces =>
    simp only [Machine.perform, hdecoded h]
    exact h.emit frame _
  | invoke name => exact hi scope name s t h
  | _ => exact h.modify _

theorem DrawsMore.step (hi : InvokesMore invoke invoke') {s t : Machine α} (h : DrawsMore s t) (scope : Scope)
    (op : Operation α) : DrawsMore (s.step r frame invoke scope op) (t.step r frame invoke' scope op) := by
  unfold Machine.step
  cases Command.ofOperation? op with
  | none => exact h
  | some c => exact h.perform hi scope c

theorem DrawsMore.foldl (hi : InvokesMore invoke invoke') {s t : Machine α} (h : DrawsMore s t) (scope : Scope)
    (ops : List (Operation α)) :
    DrawsMore (ops.foldl (Machine.step r frame invoke scope) s)
      (ops.foldl (Machine.step r frame invoke' scope) t) := by
  induction ops generalizing s t with
  | nil => exact h
  | cons op ops ih => exact ih (h.step hi scope op)

variable (r frame)

/-- A form followed deeper draws what it draws otherwise, and more. -/
theorem invoke_more {n m : Nat} (h : n ≤ m) : InvokesMore (Machine.invoke r frame n) (Machine.invoke r frame m) := by
  induction n generalizing m with
  | zero =>
    rintro scope name s _ ⟨drawn, hd, rfl⟩
    -- Below the limit the form is passed over, and the other machine only adds its runs.
    obtain ⟨new, hn⟩ := invoke_addsOnly r frame m scope name { s with drawn }
    rw [hn]
    exact ⟨new ++ drawn, hd.trans (List.sublist_append_right _ _), rfl⟩
  | succ n ih =>
    obtain ⟨m, rfl⟩ : ∃ k, m = k + 1 := ⟨m - 1, by omega⟩
    intro scope name s t hst
    unfold Machine.invoke
    cases r.form scope name with
    | none => exact hst
    | some form =>
      simp only [hst.chain]
      split
      · exact hst
      · have hentered := hst.enter form
        have hfloor : (t.enter form).floor = (s.enter form).floor := by
          obtain ⟨_, _, heq⟩ := hentered
          rw [heq]
        exact (hentered.foldl (ih (by omega)) form.scope _).leave hst _ _ hfloor

/-- A page's own program draws under a lower limit what it draws under a higher one, less some of the runs. -/
theorem runAll_more {n m : Nat} (h : n ≤ m) (scope : Scope) (ops : List (Operation α)) (s : Machine α) :
    DrawsMore (runAll r frame n scope ops s) (runAll r frame m scope ops s) :=
  (DrawsMore.refl s).foldl (invoke_more r frame h) scope ops

end Limits

section Cycles

variable {r : Resolver α} {frame : PageFrame α} {invoke invoke' : Scope → Bytes → Machine α → Machine α}

theorem step_congr {s : Machine α} (h : ∀ scope name, invoke' scope name s = invoke scope name s) (scope : Scope)
    (op : Operation α) : s.step r frame invoke' scope op = s.step r frame invoke scope op := by
  unfold Machine.step
  cases Command.ofOperation? op with
  | none => rfl
  | some c =>
    cases c with
    | invoke name => exact h scope name
    | _ => rfl

/-- A program runs the same with ways of running forms that agree for the forms under way when it starts. -/
theorem foldl_congr (ha : AddsOnly invoke) {e : Machine α} (he : e.stack.depth ≤ e.floor)
    (h : ∀ scope name s, s.chain = e.chain → invoke' scope name s = invoke scope name s) (scope : Scope)
    (ops : List (Operation α)) {s : Machine α} (hs : Within e s) :
    ops.foldl (Machine.step r frame invoke' scope) s = ops.foldl (Machine.step r frame invoke scope) s := by
  induction ops generalizing s with
  | nil => rfl
  | cons op ops ih =>
    rw [List.foldl_cons, List.foldl_cons, step_congr (fun scope name => h scope name s hs.chain)]
    exact ih (hs.step ha he scope op)

/-- The forms of a resolver, all of them among `ids`. -/
def FormsIn (ids : Finset ObjectId) (r : Resolver α) : Prop :=
  ∀ scope name form, r.form scope name = some form → form.id ∈ ids

/-- Different forms under way, as many as there are, are all that there are. -/
theorem mem_chain {ids : Finset ObjectId} {chain : List ObjectId} (hnodup : chain.Nodup)
    (hsub : ∀ id ∈ chain, id ∈ ids) (hlength : ids.card ≤ chain.length) {id : ObjectId} (hid : id ∈ ids) :
    id ∈ chain := by
  have hcard : chain.toFinset.card = chain.length := List.toFinset_card_of_nodup hnodup
  have hall : chain.toFinset = ids := by
    refine Finset.eq_of_subset_of_card_le (fun id h => hsub id (List.mem_toFinset.mp h)) ?_
    rw [hcard]
    exact hlength
  rw [← hall] at hid
  exact List.mem_toFinset.mp hid

/-- That the forms under way are different ones, all of them among `ids`. -/
structure UnderWay (ids : Finset ObjectId) (s : Machine α) : Prop where
  nodup : s.chain.Nodup
  mem : ∀ id ∈ s.chain, id ∈ ids

theorem UnderWay.enter {ids : Finset ObjectId} {s : Machine α} (h : UnderWay ids s) {form : Form α}
    (hform : form.id ∈ ids) (hnew : form.id ∉ s.chain) : UnderWay ids (s.enter form) where
  nodup := List.nodup_cons.mpr ⟨hnew, h.nodup⟩
  mem := List.forall_mem_cons.mpr ⟨hform, h.mem⟩

variable (frame) in
/-- Where all forms are under way none is run, whatever the limit is. -/
theorem invoke_full {ids : Finset ObjectId} (hf : FormsIn ids r) {s : Machine α} (hs : UnderWay ids s)
    (hlength : ids.card ≤ s.chain.length) (nesting : Nat) (scope : Scope) (name : Bytes) :
    Machine.invoke r frame nesting scope name s = s := by
  cases nesting with
  | zero => rfl
  | succ nesting =>
    unfold Machine.invoke
    cases hform : r.form scope name with
    | none => rfl
    | some form =>
      have hmem := mem_chain hs.nodup hs.mem hlength (hf scope name form hform)
      simp only [List.contains_iff_mem.mpr hmem, if_true]

variable (frame) in
/-- Where there is a level left for every form that is not under way, further levels make no difference. -/
theorem invoke_enough {ids : Finset ObjectId} (hf : FormsIn ids r) {n m : Nat} {s : Machine α}
    (hs : UnderWay ids s) (hn : ids.card ≤ s.chain.length + n) (hm : ids.card ≤ s.chain.length + m)
    (scope : Scope) (name : Bytes) :
    Machine.invoke r frame n scope name s = Machine.invoke r frame m scope name s := by
  induction n generalizing m s scope name with
  | zero => rw [invoke_full frame hf hs hn, invoke_full frame hf hs hn]
  | succ n ih =>
    cases m with
    | zero => rw [invoke_full frame hf hs hm, invoke_full frame hf hs hm]
    | succ m =>
      unfold Machine.invoke
      cases hform : r.form scope name with
      | none => rfl
      | some form =>
        by_cases hc : s.chain.contains form.id
        · simp only [hc, if_true]
        · have hentered : UnderWay ids (s.enter form) :=
            hs.enter (hf scope name form hform) fun h => hc (List.contains_iff_mem.mpr h)
          have hlength : (s.enter form).chain.length = s.chain.length + 1 := rfl
          -- The form entered takes one level and is one form fewer that can still be entered.
          have hinner : ∀ scope name t, t.chain = (s.enter form).chain →
              Machine.invoke r frame n scope name t = Machine.invoke r frame m scope name t := by
            intro scope name t ht
            have htway : UnderWay ids t := ⟨ht ▸ hentered.nodup, ht ▸ hentered.mem⟩
            rw [← ht] at hlength
            exact ih htway (by omega) (by omega) scope name
          simp only [hc, Bool.false_eq_true, if_false]
          rw [foldl_congr (invoke_addsOnly r frame m) (Nat.le_of_eq (enter_floor s form).symm) hinner
            form.scope _ (Within.refl _)]

variable (frame) in
/-- A page's own program is run the same under all limits that are not below the number of forms. -/
theorem runAll_enough {ids : Finset ObjectId} (hf : FormsIn ids r) {n m : Nat} (hn : ids.card ≤ n)
    (hm : ids.card ≤ m) (scope : Scope) (ops : List (Operation α)) :
    runAll r frame n scope ops .initial = runAll r frame m scope ops .initial := by
  refine foldl_congr (e := initial) (invoke_addsOnly r frame m) (Nat.le_refl 0) ?_ scope ops (Within.refl _)
  intro scope name s hchain
  replace hchain : s.chain = [] := hchain
  have hway : UnderWay ids s := ⟨hchain ▸ List.nodup_nil, by simp [hchain]⟩
  exact invoke_enough frame hf hway (by omega) (by omega) scope name

end Cycles

end Machine

namespace PageProgram

variable {α : Type} [Scalar α]

/-- A lower limit on how deep forms are followed only hides runs: those drawn under it are drawn under a higher
one, in the same order. Under limits that are not below the number of forms nothing is hidden, so that forms
that invoke one another in a circle end without any limit. -/
theorem runs_nesting (p : PageProgram α) (r : Resolver α) {n m : Nat} (h : n ≤ m) :
    (∀ drawn, p.runs r n = .ok drawn → ∃ drawn', p.runs r m = .ok drawn' ∧ drawn.Sublist drawn') ∧
      (∀ e, p.runs r n = .error e ↔ p.runs r m = .error e) ∧
      ∀ ids : Finset ObjectId, Machine.FormsIn ids r → ids.card ≤ n → p.runs r n = p.runs r m := by
  obtain ⟨frame, content, scope⟩ := p
  cases frame with
  | error e =>
    exact ⟨fun _ hruns => by simp [runs] at hruns, fun e => Iff.rfl, fun _ _ _ => rfl⟩
  | ok frame =>
    cases content with
    | error e =>
      refine ⟨fun drawn hruns => ⟨drawn, hruns, .refl _⟩, fun e => Iff.rfl, fun _ _ _ => rfl⟩
    | ok content =>
      refine ⟨?_, by simp [runs], fun ids hids hn => ?_⟩
      · intro drawn hruns
        obtain rfl := Except.ok.inj hruns
        exact ⟨_, rfl, (Machine.runAll_more r frame h scope _ .initial).runs⟩
      · simp only [runs, Machine.runAll_enough frame hids hn (hn.trans h)]

/-- Two forms that invoke one another, each in front of a text of its own. -/
def circle : Resolver (Exact .plain) where
  form _ name :=
    if name = [0x41] then some ⟨⟨1, 0⟩, [0x41], none, .nothing⟩
    else if name = [0x42] then some ⟨⟨2, 0⟩, [0x42], none, .nothing⟩
    else none
  text _ _ bytes := String.ofList (Latin1.decode bytes)
  operations content :=
    [⟨"Do", [.name (if content = [0x41] then [0x42] else [0x41])]⟩, ⟨"Tj", [.string content]⟩]

theorem circle_forms : Machine.FormsIn {⟨1, 0⟩, ⟨2, 0⟩} circle := by
  intro scope name form hform
  simp only [circle] at hform
  split at hform
  · obtain rfl := Option.some.inj hform
    decide
  · split at hform
    · obtain rfl := Option.some.inj hform
      decide
    · cases hform

/-- A page that invokes the first of the two. -/
def circlePage : PageProgram (Exact .plain) := ⟨.ok ⟨0, 0, 792⟩, .ok [0x43], .nothing⟩

/-- With one level the second form is passed over. From two levels on, the circle is all that ends it. -/
theorem runs_nesting_circle :
    (∃ drawn drawn', circlePage.runs circle 1 = .ok drawn ∧ drawn.map TextRun.text = ["A", "C"] ∧
      circlePage.runs circle 2 = .ok drawn' ∧ drawn'.map TextRun.text = ["B", "A", "C"] ∧ drawn.Sublist drawn') ∧
    circlePage.runs circle 2 = circlePage.runs circle 32 := by
  obtain ⟨drawn', hruns, hsub⟩ := (runs_nesting circlePage circle (by decide : 1 ≤ 2)).1 _ rfl
  obtain rfl := Except.ok.inj hruns
  refine ⟨⟨_, _, rfl, rfl, rfl, rfl, hsub⟩, ?_⟩
  exact (runs_nesting circlePage circle (by decide : 2 ≤ 32)).2.2 _ circle_forms (by decide)

end PageProgram

end Marginalia
