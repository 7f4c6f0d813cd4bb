import Mathlib.Data.List.Forall2
import Marginalia.Proofs.Graphics.Guarding

/-!
What shown text influences. Of two runs of programs that differ only in the strings shown, one leaves the
state that the other leaves, but for where the pen stands; an operation that starts a line takes the pen back,
and what is shown from there is placed alike.
-/

namespace Marginalia

variable {α : Type}

mutual

/-- The operand with all strings in it emptied. -/
def Operand.hushed : Operand α → Operand α
  | .string _ => .string []
  | .array items => .array (Operand.hushedItems items)
  | .dict entries => .dict (Operand.hushedEntries entries)
  | v => v

def Operand.hushedItems : List (Operand α) → List (Operand α)
  | [] => []
  | v :: vs => v.hushed :: Operand.hushedItems vs

def Operand.hushedEntries : List (Bytes × Operand α) → List (Bytes × Operand α)
  | [] => []
  | (k, v) :: es => (k, v.hushed) :: Operand.hushedEntries es

end

namespace Operation

/-- The operation with the strings that it shows emptied. -/
def hushed (op : Operation α) : Operation α :=
  if op.showsText then { op with operands := Operand.hushedItems op.operands } else op

end Operation

theorem Operand.hushedItems_eq_map (vs : List (Operand α)) : hushedItems vs = vs.map hushed := by
  induction vs with
  | nil => rfl
  | cons v vs ih => rw [hushedItems, ih, List.map_cons]

namespace GraphicsState

/-- That the second state is the first with the pen, perhaps, at another place. -/
def SameButPen (g g' : GraphicsState α) : Prop :=
  ∃ m, g' = { g with textMatrix := m }

theorem SameButPen.refl (g : GraphicsState α) : SameButPen g g := ⟨g.textMatrix, rfl⟩

end GraphicsState

namespace Machine

/-- That two machines are the same but for the pen, in the state in force and in every saved one, and but for
the runs that they drew. -/
structure SameButPen (s s' : Machine α) : Prop where
  current : s.stack.current.SameButPen s'.stack.current
  saved : List.Forall₂ GraphicsState.SameButPen s.stack.saved s'.stack.saved
  floor : s'.floor = s.floor
  chain : s'.chain = s.chain

theorem SameButPen.refl (s : Machine α) : SameButPen s s :=
  ⟨.refl _, List.forall₂_same.mpr fun _ _ => .refl _, rfl, rfl⟩

theorem SameButPen.modify {s s' : Machine α} (h : SameButPen s s') {f f' : GraphicsState α → GraphicsState α}
    (hf : (f s.stack.current).SameButPen (f' s'.stack.current)) : SameButPen (s.modify f) (s'.modify f') :=
  ⟨hf, h.saved, h.floor, h.chain⟩

theorem SameButPen.draw {s s' : Machine α} (h : SameButPen s s') (new new' : List (TextRun α)) :
    SameButPen { s with drawn := new ++ s.drawn } { s' with drawn := new' ++ s'.drawn } :=
  ⟨h.current, h.saved, h.floor, h.chain⟩

theorem SameButPen.restore {s s' : Machine α} (h : SameButPen s s') : SameButPen s.restore s'.restore := by
  have hdepth : s'.stack.depth = s.stack.depth := h.saved.length_eq.symm
  have hfloor := h.floor
  rcases s.restore_cases with ⟨hle, hr⟩ | ⟨g, rest, hlt, hs, hr⟩ <;>
    rcases s'.restore_cases with ⟨hle', hr'⟩ | ⟨g', rest', hlt', hs', hr'⟩
  · rw [hr, hr']
    exact h
  · omega
  · omega
  · have hsaved := h.saved
    rw [hs, hs', List.forall₂_cons] at hsaved
    rw [hr, hr']
    exact ⟨hsaved.1, hsaved.2, hfloor, h.chain⟩

end Machine

namespace Operation

theorem showsText_cases {op : Operation α} (h : op.showsText = true) :
    op.operator = "Tj" ∨ op.operator = "TJ" ∨ op.operator = "'" ∨ op.operator = "\"" := by
  simpa [showsText, or_assoc] using h

/-- Operations that differ in shown strings only are the same, or show text with operands that differ in
strings only. -/
theorem hushed_eq {op op' : Operation α} (h : op.hushed = op'.hushed) :
    op'.operator = op.operator ∧ op'.showsText = op.showsText ∧
      if op.showsText then Operand.hushedItems op.operands = Operand.hushedItems op'.operands else op' = op := by
  have hoperator : op'.operator = op.operator := by
    have := congrArg operator h
    unfold hushed at this
    split at this <;> split at this <;> exact this.symm
  have hs : op'.showsText = op.showsText := by simp only [showsText, hoperator]
  refine ⟨hoperator, hs, ?_⟩
  rw [hushed, hushed, hs] at h
  split
  · rename_i hshows
    rw [if_pos hshows, if_pos hshows] at h
    exact congrArg operands h
  · rename_i hshows
    rw [if_neg hshows, if_neg hshows] at h
    exact h.symm

end Operation

variable [Scalar α]

namespace Command

/-- That two commands show strings in the same way, whichever strings. -/
inductive ShowsAlike : Command α → Command α → Prop where
  | show_ (bytes bytes' : Bytes) : ShowsAlike (.show_ bytes) (.show_ bytes')
  | showOnNextLine (bytes bytes' : Bytes) : ShowsAlike (.showOnNextLine bytes) (.showOnNextLine bytes')
  | showPieces (pieces pieces' : List Bytes) : ShowsAlike (.showPieces pieces) (.showPieces pieces')

/-- That two operations have commands that show strings in the same way, or neither has a command. -/
def BothShow (c c' : Option (Command α)) : Prop :=
  (c = none ∧ c' = none) ∨ ∃ d d', c = some d ∧ c' = some d' ∧ ShowsAlike d d'

omit [Scalar α] in
theorem BothShow.map {β : Type} {a b : Option β} (h : b.isSome = a.isSome) {f : β → Command α}
    (hf : ∀ x y, ShowsAlike (f x) (f y)) : BothShow (a.map f) (b.map f) := by
  cases a with
  | none =>
    rw [Option.isSome_none, Option.isSome_eq_false_iff, Option.isNone_iff_eq_none] at h
    rw [h]
    exact .inl ⟨rfl, rfl⟩
  | some x =>
    obtain ⟨y, rfl⟩ := Option.isSome_iff_exists.mp h
    exact .inr ⟨_, _, rfl, rfl, hf x y⟩

/-- The items of the array that the operands begin with. -/
def arrayItems? : List (Operand α) → Option (List (Operand α))
  | .array items :: _ => some items
  | _ => none

theorem ofOperation?_pieces (vs : List (Operand α)) :
    ofOperation? ⟨"TJ", vs⟩ = (arrayItems? vs).map fun items => showPieces (strings items) := by
  cases vs with
  | nil => rfl
  | cons v vs => cases v <;> rfl

section Hushed

variable {vs vs' : List (Operand α)} (h : Operand.hushedItems vs = Operand.hushedItems vs')

include h

omit [Scalar α] in
theorem getElem?_hushed (i : Nat) : (vs[i]?).map Operand.hushed = (vs'[i]?).map Operand.hushed := by
  rw [← List.getElem?_map, ← List.getElem?_map, ← Operand.hushedItems_eq_map, h, Operand.hushedItems_eq_map]

omit [Scalar α] in
/-- Whether an operand is a string can be seen without its bytes. -/
theorem stringAt?_hushed (i : Nat) : (stringAt? vs' i).isSome = (stringAt? vs i).isSome := by
  have hstring : ∀ ws : List (Operand α), (stringAt? ws i).isSome = true ↔
      (ws[i]?).map Operand.hushed = some (.string []) := by
    intro ws
    unfold stringAt?
    cases ws[i]? with
    | none => simp
    | some v => cases v <;> simp [Operand.hushed]
  rw [Bool.eq_iff_iff, hstring, hstring, getElem?_hushed h]

omit [Scalar α] in
/-- And so it is with arrays. -/
theorem arrayItems?_hushed : (arrayItems? vs').isSome = (arrayItems? vs).isSome := by
  have harray : ∀ ws : List (Operand α), (arrayItems? ws).isSome = true ↔
      ∃ items, (ws[0]?).map Operand.hushed = some (.array items) := by
    intro ws
    cases ws with
    | nil => simp [arrayItems?]
    | cons v ws => cases v <;> simp [arrayItems?, Operand.hushed]
  rw [Bool.eq_iff_iff, harray, harray, getElem?_hushed h]

/-- Operations that show text with operands that differ in strings only show it alike, if they can. -/
theorem ofOperation?_hushed {operator : String} (hs : Operation.showsText ⟨operator, vs⟩ = true) :
    BothShow (ofOperation? ⟨operator, vs⟩) (ofOperation? ⟨operator, vs'⟩) := by
  rcases Operation.showsText_cases hs with heq | heq | heq | heq
  · obtain rfl : operator = "Tj" := heq
    exact .map (stringAt?_hushed h 0) .show_
  · obtain rfl : operator = "TJ" := heq
    rw [ofOperation?_pieces, ofOperation?_pieces]
    exact .map (arrayItems?_hushed h) fun _ _ => .showPieces _ _
  · obtain rfl : operator = "'" := heq
    exact .map (stringAt?_hushed h 0) .showOnNextLine
  · obtain rfl : operator = "\"" := heq
    exact .map (stringAt?_hushed h 2) .showOnNextLine

end Hushed

end Command

namespace Machine

variable {r : Resolver α} {frame : PageFrame α} {invoke : Scope → Bytes → Machine α → Machine α}

theorem SameButPen.emit {s s' : Machine α} (h : SameButPen s s') (text text' : String) :
    SameButPen (s.emit frame text) (s'.emit frame text') := by
  have hpen : ∀ (t : Machine α) (text : String), ∃ m new,
      t.emit frame text = { t.modify (fun g => { g with textMatrix := m }) with drawn := new ++ t.drawn } := by
    intro t text
    unfold Machine.emit
    split
    · exact ⟨t.stack.current.textMatrix, [], rfl⟩
    · exact ⟨_, [_], rfl⟩
  obtain ⟨m, new, he⟩ := hpen s text
  obtain ⟨m', new', he'⟩ := hpen s' text'
  obtain ⟨m₀, hcurrent⟩ := h.current
  rw [he, he']
  refine ⟨⟨m', ?_⟩, h.saved, h.floor, h.chain⟩
  show { s'.stack.current with textMatrix := m' } = _
  rw [hcurrent]
  rfl

theorem SameButPen.shows {s s' : Machine α} (h : SameButPen s s') {c c' : Command α} (hc : c.ShowsAlike c')
    (scope : Scope) : SameButPen (s.perform r frame invoke scope c) (s'.perform r frame invoke scope c') := by
  cases hc with
  | show_ bytes bytes' => exact h.emit _ _
  | showPieces pieces pieces' => exact h.emit _ _
  | showOnNextLine bytes bytes' =>
    refine SameButPen.emit (h.modify ?_) _ _
    obtain ⟨m, hm⟩ := h.current
    rw [hm]
    exact .refl _

/-- No command hands the place of the pen on to anything else. -/
theorem SameButPen.perform (hi : AddsOnly invoke) {s s' : Machine α} (h : SameButPen s s') (scope : Scope)
    (c : Command α) : SameButPen (s.perform r frame invoke scope c) (s'.perform r frame invoke scope c) := by
  obtain ⟨m, hm⟩ := h.current
  cases c with
  | save => exact ⟨h.current, .cons h.current h.saved, h.floor, h.chain⟩
  | restore => exact h.restore
  | endText => exact h
  | show_ bytes => exact h.shows (.show_ bytes bytes) scope
  | showOnNextLine bytes => exact h.shows (.showOnNextLine bytes bytes) scope
  | showPieces pieces => exact h.shows (.showPieces pieces pieces) scope
  | invoke name =>
    obtain ⟨new, hn⟩ := hi scope name s
    obtain ⟨new', hn'⟩ := hi scope name s'
    simp only [Machine.perform, hn, hn']
    exact h.draw new new'
  | _ =>
    refine h.modify ?_
    rw [hm]
    exact ⟨_, rfl⟩

theorem SameButPen.step (hi : AddsOnly invoke) {s s' : Machine α} (h : SameButPen s s') (scope : Scope)
    {op op' : Operation α} (ho : op.hushed = op'.hushed) :
    SameButPen (s.step r frame invoke scope op) (s'.step r frame invoke scope op') := by
  obtain ⟨operator, vs⟩ := op
  obtain ⟨operator', vs'⟩ := op'
  obtain ⟨hoperator, -, hrest⟩ := Operation.hushed_eq ho
  obtain rfl : operator' = operator := hoperator
  split at hrest
  · rename_i hs
    unfold Machine.step
    rcases Command.ofOperation?_hushed hrest hs with ⟨hc, hc'⟩ | ⟨c, c', hc, hc', halike⟩ <;> rw [hc, hc']
    · exact h
    · exact h.shows halike scope
  · rw [hrest]
    unfold Machine.step
    cases Command.ofOperation? (⟨operator', vs⟩ : Operation α) with
    | none => exact h
    | some c => exact h.perform hi scope c

variable (r frame) in
/-- Programs that differ in shown strings only leave states that differ in the place of the pen only. -/
theorem SameButPen.runAll (nesting : Nat) (scope : Scope) {ops ops' : List (Operation α)}
    (ho : ops.map Operation.hushed = ops'.map Operation.hushed) {s s' : Machine α} (h : SameButPen s s') :
    SameButPen (Machine.runAll r frame nesting scope ops s) (Machine.runAll r frame nesting scope ops' s') := by
  induction ops generalizing ops' s s' with
  | nil =>
    obtain rfl : ops' = [] := List.map_eq_nil_iff.mp ho.symm
    exact h
  | cons op ops ih =>
    obtain ⟨op', rest, rfl, hop, hrest⟩ := List.map_eq_cons_iff.mp ho.symm
    exact ih hrest.symm (h.step (invoke_addsOnly r frame nesting) scope hop.symm)

end Machine

end Marginalia
