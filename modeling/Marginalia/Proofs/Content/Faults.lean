import Marginalia.Proofs.Content.Truncation

/-!
The faults of the recovering reader. While a token or a container is open, its beginning is a place at which the
program could be cut off without losing an operation; so a fault, which is always reported there or at the byte just
read, leaves what is in front of it.
-/

namespace Marginalia

open Syntax

/-- That an input has at the place of a fault what the fault is about. -/
def LexFault.PointsAt (bs : Bytes) (e : LexFault) : Prop :=
  match e.kind with
  | .unterminatedString => bs[e.offset]? = some 0x28
  | .unterminatedHexString => bs[e.offset]? = some 0x3C
  | .unterminatedArray => bs[e.offset]? = some 0x5B
  | .unterminatedDictionary => bs[e.offset]? = some 0x3C ∧ bs[e.offset + 1]? = some 0x3C
  | .unexpectedDelimiter c => bs[e.offset]? = some c
  | .unexpectedKeyword | .invalidDictionaryKey => True

theorem getElem?_append_of_some {bs t : Bytes} {i : Nat} {c : UInt8} (h : bs[i]? = some c) :
    (bs ++ t)[i]? = some c := by
  rw [List.getElem?_append_left (List.getElem?_eq_some_iff.mp h).1, h]

theorem LexFault.PointsAt.append {bs : Bytes} {e : LexFault} (h : e.PointsAt bs) (t : Bytes) : e.PointsAt (bs ++ t) := by
  obtain ⟨offset, kind⟩ := e
  cases kind with
  | unterminatedDictionary => exact ⟨getElem?_append_of_some h.1, getElem?_append_of_some h.2⟩
  | unexpectedKeyword | invalidDictionaryKey => trivial
  | _ => exact getElem?_append_of_some h

/-- The fault that is reported if what is being read turns out to be wrong. -/
def Mode.fault? : Mode → Option LexFault
  | .word start _ => some ⟨start, .unexpectedKeyword⟩
  | .name start _ | .greater start => some ⟨start, .invalidDictionaryKey⟩
  | .literal start _ => some ⟨start, .unterminatedString⟩
  | .less start | .hex start _ => some ⟨start, .unterminatedHexString⟩
  | .halted fault => fault
  | .between | .comment | .imageStart | .image _ => none

/-- The fault that is reported if a container is not closed. -/
def Container.fault {α : Type} : Container α → LexFault
  | .array start _ => ⟨start, .unterminatedArray⟩
  | .dict start _ _ => ⟨start, .unterminatedDictionary⟩

namespace Lexer

variable {α : Type} [Scalar α] {bs : Bytes} {s : Lexer α}

/-- That an input cut off at a place has certain operations, which are given newest first. -/
structure CutsTo (bs : Bytes) (ops : List (Operation α)) (offset : Nat) : Prop where
  inside : offset < bs.length
  operations : (lexOperations (bs.take offset)).operations = ops.reverse

/-- That a fault points at what it is about, and that the operations in front of it are all there are. -/
structure Located (bs : Bytes) (ops : List (Operation α)) (e : LexFault) : Prop extends CutsTo bs ops e.offset where
  points : e.PointsAt bs

theorem Located.append {ops : List (Operation α)} {e : LexFault} (h : Located bs ops e) (t : Bytes) :
    Located (bs ++ t) ops e where
  inside := by
    rw [List.length_append]
    exact Nat.lt_add_right _ h.inside
  operations := by
    rw [List.take_append_of_le_length (Nat.le_of_lt h.inside)]
    exact h.operations
  points := h.points.append t

/-- That a container could be found unclosed at its beginning. -/
abbrev Nested (bs : Bytes) (ops : List (Operation α)) (nesting : List (Container α)) : Prop :=
  ∀ c ∈ nesting, Located bs ops c.fault

/-- That whatever is open could be found wrong at its beginning. -/
structure Traced (bs : Bytes) (s : Lexer α) : Prop where
  nesting : Nested bs s.operations s.nesting
  mode : ∀ e ∈ s.mode.fault?, Located bs s.operations e
  less : ∀ start, s.mode = .less start → start + 1 = bs.length

theorem Traced.of_quiet (h : Nested bs s.operations s.nesting) (hm : s.mode.fault? = none) : s.Traced bs where
  nesting := h
  mode := fun e he => by
    rw [hm] at he
    cases he
  less := fun start hs => by
    rw [hs] at hm
    cases hm

theorem Traced.append (h : s.Traced bs) (hs : ∀ start, s.mode ≠ .less start) (t : Bytes) : s.Traced (bs ++ t) where
  nesting := fun c hc => (h.nesting c hc).append t
  mode := fun e he => (h.mode e he).append t
  less := fun start hm => absurd hm (hs start)

section Tokens

theorem traced_fail (h : Nested bs s.operations s.nesting) {offset : Nat} {kind : FaultKind}
    (he : Located bs s.operations ⟨offset, kind⟩) : (s.fail offset kind).Traced bs where
  nesting := h
  mode := fun e he' => by
    change e ∈ if s.image then none else some ⟨offset, kind⟩ at he'
    cases hi : s.image with
    | true => simp [hi] at he'
    | false =>
      obtain rfl : (⟨offset, kind⟩ : LexFault) = e := by simpa [hi] using he'
      exact he
  less := fun start hs => by cases hs

/-- A value may be taken where it began. -/
theorem traced_deliver (h : Nested bs s.operations s.nesting) {start : Nat} (hstart : CutsTo bs s.operations start)
    (v : Operand α) : (s.deliver start v).Traced bs := by
  obtain ⟨offset, mode, nesting, operands, operations, image⟩ := s
  cases nesting with
  | nil =>
    cases image with
    | true => exact .of_quiet h rfl
    | false => exact .of_quiet h rfl
  | cons container rest =>
    obtain ⟨hc, hrest⟩ := List.forall_mem_cons.mp h
    cases container with
    | array at_ items => exact .of_quiet (List.forall_mem_cons.mpr ⟨hc, hrest⟩) rfl
    | dict at_ entries key =>
      cases key with
      | some key => exact .of_quiet (List.forall_mem_cons.mpr ⟨hc, hrest⟩) rfl
      | none =>
        cases v with
        | name key => exact .of_quiet (List.forall_mem_cons.mpr ⟨hc, hrest⟩) rfl
        | _ => exact traced_fail h ⟨hstart, trivial⟩

theorem traced_operator (h : Nested bs s.operations s.nesting) {start : Nat} (hstart : CutsTo bs s.operations start)
    (word : String) : (s.operator start word).Traced bs := by
  unfold operator
  split
  · exact traced_fail h ⟨hstart, trivial⟩
  · rename_i hempty
    have hnil : s.nesting = [] := by simpa using hempty
    split
    · refine .of_quiet h ?_
      simp only
      split <;> rfl
    · refine .of_quiet ?_ rfl
      rw [hnil]
      exact List.forall_mem_nil _

theorem traced_word (h : s.Traced bs) {start : Nat} (hstart : CutsTo bs s.operations start) (bytes : Bytes) :
    (s.word start bytes).Traced bs := by
  unfold word
  split
  · split_ifs
    · exact traced_deliver h.nesting hstart _
    · exact traced_deliver h.nesting hstart _
    · exact traced_deliver h.nesting hstart _
    · exact traced_deliver h.nesting hstart _
    · exact traced_operator h.nesting hstart _
  · exact h

theorem traced_closeArray (h : Nested bs s.operations s.nesting)
    (hc : Located bs s.operations ⟨s.offset, .unexpectedDelimiter 0x5D⟩) : s.closeArray.Traced bs := by
  unfold closeArray
  split
  · rename_i start items rest hn
    rw [hn] at h
    obtain ⟨hopen, hrest⟩ := List.forall_mem_cons.mp h
    exact traced_deliver (s := { s with nesting := rest }) hrest hopen.toCutsTo _
  · exact traced_fail h hc

theorem traced_closeDict (h : Nested bs s.operations s.nesting)
    (hc : Located bs s.operations ⟨s.offset, .unexpectedDelimiter 0x3E⟩) : s.closeDict.Traced bs := by
  unfold closeDict
  split
  · rename_i start entries key rest hn
    rw [hn] at h
    obtain ⟨hopen, hrest⟩ := List.forall_mem_cons.mp h
    exact traced_deliver (s := { s with nesting := rest }) hrest hopen.toCutsTo _
  · exact traced_fail h hc

theorem traced_greaterSign (h : Nested bs s.operations s.nesting)
    (hc : Located bs s.operations ⟨s.offset, .unexpectedDelimiter 0x3E⟩) : s.greaterSign.Traced bs := by
  have hmode : ∀ e ∈ (Mode.greater s.offset).fault?, Located bs s.operations e := by
    rintro e ⟨⟩
    exact ⟨hc.toCutsTo, trivial⟩
  unfold greaterSign
  split
  · rename_i start entries key rest hn
    rw [hn] at h
    exact ⟨List.forall_mem_cons.mpr (List.forall_mem_cons.mp h), hmode, fun _ hs => by cases hs⟩
  · exact ⟨h, hmode, fun _ hs => by cases hs⟩
  · exact traced_fail h hc

/-- A token may begin at the last byte, if the bytes in front of it have the operations read so far. -/
theorem traced_startToken (h : Nested bs s.operations s.nesting) (hs : s.mode = .between)
    (hcut : CutsTo bs s.operations s.offset) (hend : s.offset + 1 = bs.length) {c : UInt8}
    (hc : bs[s.offset]? = some c) : (s.startToken c).Traced bs := by
  have hopen : ∀ {m : Mode} {e : LexFault}, m.fault? = some e → e.offset = s.offset → e.PointsAt bs →
      (∀ start, m = .less start → start + 1 = bs.length) → ({ s with mode := m } : Lexer α).Traced bs := by
    intro m e hm he hpoints hless
    refine ⟨h, fun e' he' => ?_, hless⟩
    obtain rfl : e = e' := Option.some.inj (hm.symm.trans he')
    exact ⟨he ▸ hcut, hpoints⟩
  unfold startToken
  split_ifs with hwhite hpercent hparenthesis hless hbracket hslash hclose hgreater hdelimiter
  · exact .of_quiet h (by rw [hs]; rfl)
  · exact .of_quiet h rfl
  · obtain rfl := eq_of_beq hparenthesis
    exact hopen (e := ⟨s.offset, .unterminatedString⟩) rfl rfl hc (fun _ hm => by cases hm)
  · obtain rfl := eq_of_beq hless
    exact hopen (e := ⟨s.offset, .unterminatedHexString⟩) rfl rfl hc (fun _ hm => by cases hm; exact hend)
  · obtain rfl := eq_of_beq hbracket
    exact .of_quiet (List.forall_mem_cons.mpr ⟨⟨hcut, hc⟩, h⟩) (by rw [hs]; rfl)
  · exact hopen (e := ⟨s.offset, .invalidDictionaryKey⟩) rfl rfl trivial (fun _ hm => by cases hm)
  · obtain rfl := eq_of_beq hclose
    exact traced_closeArray h ⟨hcut, hc⟩
  · obtain rfl := eq_of_beq hgreater
    exact traced_greaterSign h ⟨hcut, hc⟩
  · exact traced_fail h ⟨hcut, hc⟩
  · exact hopen (e := ⟨s.offset, .unexpectedKeyword⟩) rfl rfl trivial (fun _ hm => by cases hm)

theorem traced_hexByte (h : Nested bs s.operations s.nesting) {start : Nat}
    (hstart : Located bs s.operations ⟨start, .unterminatedHexString⟩) (nibbles : List UInt8) (c : UInt8) :
    (s.hexByte start nibbles c).Traced bs := by
  have hmode : ∀ nibbles, ({ s with mode := .hex start nibbles } : Lexer α).Traced bs := fun nibbles =>
    ⟨h, by rintro e ⟨⟩; exact hstart, fun _ hm => by cases hm⟩
  unfold hexByte
  split
  · exact traced_deliver h hstart.toCutsTo _
  · split
    · exact hmode _
    · exact hmode _

theorem traced_closeNesting (h : s.Traced bs) : s.closeNesting.Traced bs := by
  have hn := h.nesting
  unfold closeNesting
  split
  · exact h
  · rename_i start items rest heq
    exact traced_fail hn (hn (.array start items) (by simp [heq]))
  · rename_i start entries key rest heq
    exact traced_fail hn (hn (.dict start entries key) (by simp [heq]))

end Tokens

section Offset

omit [Scalar α]

@[simp]
theorem offset_deliver (s : Lexer α) (start : Nat) (v : Operand α) : (s.deliver start v).offset = s.offset := by
  simp only [deliver]
  split
  · split <;> rfl
  · rfl
  · rfl
  · split <;> rfl

@[simp]
theorem offset_closeArray (s : Lexer α) : s.closeArray.offset = s.offset := by
  unfold closeArray
  split
  · simp
  · rfl

@[simp]
theorem offset_closeDict (s : Lexer α) : s.closeDict.offset = s.offset := by
  unfold closeDict
  split
  · simp
  · rfl

@[simp]
theorem offset_greaterSign (s : Lexer α) : s.greaterSign.offset = s.offset := by
  unfold greaterSign
  split <;> rfl

@[simp]
theorem offset_startToken (s : Lexer α) (c : UInt8) : (s.startToken c).offset = s.offset := by
  simp only [startToken, fail, apply_ite Lexer.offset, offset_closeArray, offset_greaterSign, ite_self]

@[simp]
theorem offset_hexByte (s : Lexer α) (start : Nat) (nibbles : List UInt8) (c : UInt8) :
    (s.hexByte start nibbles c).offset = s.offset := by
  unfold hexByte
  split
  · exact offset_deliver _ _ _
  · split <;> rfl

@[simp]
theorem offset_word [Scalar α] (s : Lexer α) (start : Nat) (bytes : Bytes) :
    (s.word start bytes).offset = s.offset := by
  unfold word
  split
  · simp only [apply_ite Lexer.offset, offset_deliver, operator, fail, ite_self]
  · rfl

/-- Only the step itself moves on. -/
theorem offset_react [Scalar α] (s : Lexer α) (c : UInt8) : (s.react c).offset = s.offset := by
  unfold react
  cases s.mode with
  | word start bytes =>
    simp only
    split
    · rfl
    · split <;> simp [skipSeparator]
  | name start bytes =>
    simp only
    split
    · rfl
    · split <;> simp
  | literal start string =>
    simp only
    split
    · rfl
    · exact offset_deliver _ _ _
  | comment => simp only [apply_ite Lexer.offset, ite_self]
  | less start => simp only [apply_ite Lexer.offset, offset_hexByte, ite_self]
  | greater start => simp only [apply_ite Lexer.offset, offset_closeDict, fail, ite_self]
  | image scan => cases scan <;> simp only [scanImage, apply_ite Lexer.offset, ite_self]
  | _ => simp [skipSeparator]

end Offset

/-- What is open when a byte was read could be found wrong at its beginning. -/
theorem traced_step (h : s.Traced bs) (ho : s.offset = bs.length)
    (hops : (lexOperations bs).operations = s.ended.operations.reverse) (c : UInt8) :
    (s.step c).Traced (bs ++ [c]) := by
  have hcut : CutsTo (bs ++ [c]) s.ended.operations s.offset := by
    refine ⟨by simp [ho], ?_⟩
    rw [ho, List.take_left]
    exact hops
  have hc : (bs ++ [c])[s.offset]? = some c := by rw [ho, List.getElem?_concat_length]
  have hend : s.offset + 1 = (bs ++ [c]).length := by simp [ho]
  have hn : Nested (bs ++ [c]) s.operations s.nesting := fun d hd => (h.nesting d hd).append [c]
  have hm : ∀ e ∈ s.mode.fault?, Located (bs ++ [c]) s.operations e := fun e he => (h.mode e he).append [c]
  suffices hreact : (s.react c).Traced (bs ++ [c]) from ⟨hreact.nesting, hreact.mode, hreact.less⟩
  unfold ended at hcut
  unfold react
  cases hmode : s.mode with
  | between =>
    rw [hmode] at hcut
    exact traced_startToken hn hmode hcut hend hc
  | comment =>
    simp only
    split
    · exact .of_quiet hn rfl
    · exact .of_quiet hn (by rw [hmode]; rfl)
  | word start bytes =>
    rw [hmode] at hcut hm
    have hstart := hm ⟨start, .unexpectedKeyword⟩ rfl
    have hword := traced_word (h.append (by simp [hmode]) [c]) hstart.toCutsTo bytes.reverse
    simp only
    split
    · exact ⟨hn, hm, fun _ hs => by cases hs⟩
    · split
      · rename_i hbetween
        exact traced_startToken hword.nesting hbetween (by rwa [offset_word]) (by rwa [offset_word])
          (by rwa [offset_word])
      · exact .of_quiet hword.nesting rfl
      · exact hword
  | name start bytes =>
    rw [hmode] at hcut hm
    have hstart := hm ⟨start, .invalidDictionaryKey⟩ rfl
    have hname := traced_deliver hn hstart.toCutsTo (.name (unescapeName bytes.reverse))
    simp only
    split
    · exact ⟨hn, hm, fun _ hs => by cases hs⟩
    · split
      · rename_i hbetween
        exact traced_startToken hname.nesting hbetween (by rwa [offset_deliver]) (by rwa [offset_deliver])
          (by rwa [offset_deliver])
      · exact hname
  | literal start string =>
    rw [hmode] at hm
    simp only
    split
    · exact ⟨hn, hm, fun _ hs => by cases hs⟩
    · exact traced_deliver hn (hm ⟨start, .unterminatedString⟩ rfl).toCutsTo _
  | less start =>
    rw [hmode] at hm
    have hstart := hm ⟨start, .unterminatedHexString⟩ rfl
    have hnext : start + 1 = bs.length := h.less start hmode
    simp only
    split
    · rename_i hless
      obtain rfl := eq_of_beq hless
      have hopen : Located (bs ++ [0x3C]) s.operations ⟨start, .unterminatedDictionary⟩ :=
        ⟨hstart.toCutsTo, hstart.points, by rwa [hnext, ← ho]⟩
      exact .of_quiet (List.forall_mem_cons.mpr ⟨hopen, hn⟩) rfl
    · exact traced_hexByte hn hstart [] c
  | hex start nibbles =>
    rw [hmode] at hm
    exact traced_hexByte hn (hm ⟨start, .unterminatedHexString⟩ rfl) nibbles c
  | greater start =>
    rw [hmode] at hcut hm
    simp only
    split
    · rename_i hgreater
      obtain rfl := eq_of_beq hgreater
      exact traced_closeDict hn ⟨hcut, hc⟩
    · exact traced_fail hn (hm ⟨start, .invalidDictionaryKey⟩ rfl)
  | imageStart => exact .of_quiet hn rfl
  | image scan =>
    cases scan <;> simp only [scanImage] <;> split <;> exact .of_quiet hn rfl
  | halted fault =>
    exact ⟨hn, hm, fun start hs => by rw [hmode] at hs; cases hs⟩

/-- What is open at the end of an input could be found wrong at its beginning. -/
theorem traced_read (bs : Bytes) :
    ((initial (α := α)).read bs).Traced bs ∧ ((initial (α := α)).read bs).offset = bs.length := by
  induction bs using List.reverseRecOn with
  | nil => exact ⟨.of_quiet (List.forall_mem_nil _) rfl, rfl⟩
  | append_singleton bs c ih =>
    obtain ⟨h, ho⟩ := ih
    have hops : (lexOperations (α := α) bs).operations = (initial.read bs).ended.operations.reverse := by
      rw [← operations_finish]
      rfl
    rw [read_append]
    refine ⟨traced_step h ho hops c, ?_⟩
    change ((initial.read bs).react c).offset + 1 = _
    rw [offset_react, ho, List.length_append, List.length_singleton]

theorem traced_finish (h : s.Traced bs) : s.finish.Traced bs := by
  have hn := h.nesting
  have hm := h.mode
  unfold finish
  cases hmode : s.mode with
  | between | comment => exact traced_closeNesting h
  | word start bytes =>
    rw [hmode] at hm
    have hword := traced_word h (hm ⟨start, .unexpectedKeyword⟩ rfl).toCutsTo bytes.reverse
    simp only
    split
    · exact traced_closeNesting hword
    · exact hword
  | name start bytes =>
    rw [hmode] at hm
    have hname := traced_deliver hn (hm ⟨start, .invalidDictionaryKey⟩ rfl).toCutsTo (.name (unescapeName bytes.reverse))
    simp only
    split
    · exact traced_closeNesting hname
    · exact hname
  | literal start string | less start | hex start nibbles | greater start =>
    rw [hmode] at hm
    exact traced_fail hn (hm _ rfl)
  | imageStart | image scan | halted fault => exact h

end Lexer

open Lexer

/-- A fault is inside the input and points at what it is about, and the operations that were read are those of the
input cut off there. -/
theorem lexOperations_fault {α : Type} [Scalar α] {bs : Bytes} {e : LexFault}
    (h : (lexOperations (α := α) bs).fault = some e) :
    e.offset < bs.length ∧ e.PointsAt bs ∧
      (lexOperations (α := α) (bs.take e.offset)).operations = (lexOperations bs).operations := by
  have htraced := traced_finish (traced_read (α := α) bs).1
  have hmode : e ∈ (initial (α := α).read bs).finish.mode.fault? := by
    simp only [lexOperations, decoded] at h
    split at h
    · rename_i fault heq
      rw [heq]
      exact h
    · cases h
  obtain ⟨hcut, hpoints⟩ := htraced.mode e hmode
  exact ⟨hcut.inside, hpoints, hcut.operations⟩

/-- A string in a dictionary in an array, none of which is closed. -/
theorem lexOperations_fault_unclosed :
    (lexOperations (α := Float) (ascii "BT [<</K(a")).fault = some ⟨8, .unterminatedString⟩ ∧
      8 < (ascii "BT [<</K(a").length ∧ (LexFault.mk 8 .unterminatedString).PointsAt (ascii "BT [<</K(a") ∧
      (lexOperations (α := Float) ((ascii "BT [<</K(a").take 8)).operations =
        (lexOperations (ascii "BT [<</K(a")).operations := by
  have hfault : (lexOperations (α := Float) (ascii "BT [<</K(a")).fault = some ⟨8, .unterminatedString⟩ := rfl
  exact ⟨hfault, lexOperations_fault hfault⟩

end Marginalia
