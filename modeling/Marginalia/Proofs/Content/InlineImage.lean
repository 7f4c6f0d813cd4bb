import Marginalia.Proofs.Content.Succession

/-!
Inline images. The recovering reader takes an image for one operation, whatever its samples are, and goes on behind
it as if nothing were in front.
-/

namespace Marginalia

open Syntax

/-- That an input begins with the end of an inline image: `EI` with white space on both sides. -/
def beginsImageEnd : Bytes → Bool
  | x :: 0x45 :: 0x49 :: y :: _ => isWhite x && isWhite y
  | _ => false

/-- That the end of an inline image stands somewhere in an input. -/
def hasImageEnd (bs : Bytes) : Bool := bs.tails.any beginsImageEnd

theorem hasImageEnd_iff {bs : Bytes} : hasImageEnd bs = true ↔
    ∃ front x y back, bs = front ++ x :: 0x45 :: 0x49 :: y :: back ∧ isWhite x = true ∧ isWhite y = true := by
  constructor
  · intro h
    obtain ⟨tail, htail, hend⟩ := List.any_eq_true.mp h
    obtain ⟨front, rfl⟩ := (List.mem_tails _ _).mp htail
    unfold beginsImageEnd at hend
    split at hend
    · rename_i x y back
      obtain ⟨hx, hy⟩ := Bool.and_eq_true_iff.mp hend
      exact ⟨front, x, y, back, rfl, hx, hy⟩
    · cases hend
  · rintro ⟨front, x, y, back, rfl, hx, hy⟩
    apply List.any_eq_true.mpr
    refine ⟨_, (List.mem_tails _ _).mpr (List.suffix_append _ _), ?_⟩
    simp [beginsImageEnd, hx, hy]

/-- An inline image with its parameters and samples, the end of which is on a line of its own. -/
def inlineImage (parameters samples : Bytes) : Bytes :=
  ascii "BI " ++ parameters ++ ascii " ID " ++ samples ++ ascii "\nEI\n"

/-- That a part of a program has values only, and does not end inside of a comment. -/
structure HasValues (α : Type) [Scalar α] (bs : Bytes) : Prop where
  sound : (lexOperations (α := α) bs).fault = none
  operatorless : (lexOperations (α := α) bs).operations = []
  uncommented : ((Lexer.initial (α := α)).read bs).mode ≠ .comment

/-- What the last bytes of an input say about the search for the end of an image. -/
def ImageScan.Tells : ImageScan → Bytes → Prop
  | .samples white, bs => ∃ x, bs.getLast? = some x ∧ isWhite x = white
  | .e, bs => ∃ front x, bs = front ++ [x, 0x45] ∧ isWhite x = true
  | .ei, bs => ∃ front x, bs = front ++ [x, 0x45, 0x49] ∧ isWhite x = true

/-- Behind a line end the search is at its beginning. -/
theorem ImageScan.Tells.lineEnd {scan : ImageScan} {bs : Bytes} (h : scan.Tells (bs ++ [0x0A])) :
    scan = .samples true := by
  cases scan with
  | samples white =>
    obtain ⟨x, hx, rfl⟩ := h
    rw [List.getLast?_concat] at hx
    obtain rfl := Option.some.inj hx
    rfl
  | e | ei =>
    obtain ⟨front, x, heq, -⟩ := h
    have hlast := congrArg List.getLast? heq
    rw [List.getLast?_concat] at hlast
    simp at hlast

namespace Lexer

variable {α : Type}

/-- A byte that does not complete the end of the image leaves the search going on. -/
theorem scanImage_tells {s : Lexer α} {scan : ImageScan} {bs : Bytes} (h : scan.Tells bs) {c : UInt8}
    (hend : ∀ front x, bs ++ [c] = front ++ [x, 0x45, 0x49, c] → isWhite x = true → isWhite c = false) :
    ∃ scan' : ImageScan, s.scanImage scan c = { s with mode := .image scan' } ∧ scan'.Tells (bs ++ [c]) := by
  have hother : (ImageScan.samples (isWhite c)).Tells (bs ++ [c]) := ⟨c, by simp, rfl⟩
  cases scan with
  | samples white =>
    obtain ⟨x, hx, hwhite⟩ := h
    by_cases hc : (white && c == 0x45) = true
    · obtain ⟨rfl, hce⟩ := Bool.and_eq_true_iff.mp hc
      obtain rfl := eq_of_beq hce
      obtain ⟨front, rfl⟩ := List.getLast?_eq_some_iff.mp hx
      exact ⟨.e, by simp [scanImage], front, x, by simp, hwhite⟩
    · exact ⟨_, by simp only [scanImage, hc, Bool.false_eq_true, if_false], hother⟩
  | e =>
    obtain ⟨front, x, rfl, hwhite⟩ := h
    by_cases hc : (c == 0x49) = true
    · obtain rfl := eq_of_beq hc
      exact ⟨.ei, by simp [scanImage], front, x, by simp, hwhite⟩
    · exact ⟨_, by simp only [scanImage, hc, Bool.false_eq_true, if_false], hother⟩
  | ei =>
    obtain ⟨front, x, rfl, hwhite⟩ := h
    have hc := hend front x (by simp) hwhite
    exact ⟨_, by simp only [scanImage, hc, Bool.false_eq_true, if_false], hother⟩

variable [Scalar α]

/-- Samples without an end of the image are passed over. -/
theorem read_samples {s : Lexer α} {scan : ImageScan} (hs : s.mode = .image scan) {p bs : Bytes} (h : scan.Tells p)
    (hend : hasImageEnd (p ++ bs) = false) : ∃ scan' : ImageScan,
      s.read bs = { s with mode := .image scan', offset := s.offset + bs.length } ∧ scan'.Tells (p ++ bs) := by
  -- The state of the search tells the last two bytes only, so the bytes already read are carried along.
  induction bs generalizing s scan p with
  | nil =>
    refine ⟨scan, ?_, by simpa using h⟩
    rw [← hs]
    rfl
  | cons c bs ih =>
    have hnone : ∀ front x, p ++ [c] = front ++ [x, 0x45, 0x49, c] → isWhite x = true → isWhite c = false := by
      intro front x hp hx
      by_contra hc
      have hsplit : p ++ c :: bs = front ++ x :: 0x45 :: 0x49 :: c :: bs := by
        simpa using congrArg (· ++ bs) hp
      have hfound : hasImageEnd (p ++ c :: bs) = true :=
        hasImageEnd_iff.mpr ⟨front, x, c, bs, hsplit, hx, by simpa using hc⟩
      rw [hfound] at hend
      cases hend
    obtain ⟨scan₁, hstep, htells⟩ := scanImage_tells (s := s) h hnone
    have hnext : s.step c = { s with mode := .image scan₁, offset := s.offset + 1 } := by
      simp only [step, react, hs, hstep]
    obtain ⟨scan₂, hread, htold⟩ := ih (s := s.step c) (by rw [hnext]) htells (by simpa using hend)
    refine ⟨scan₂, ?_, by simpa using htold⟩
    change (s.step c).read bs = _
    rw [hread, hnext]
    simp [Nat.add_comm, Nat.add_left_comm]

/-- Samples with a line end behind them are passed over, if they do not have the end of the image in them. -/
theorem read_sampleLine {samples : Bytes} (h : hasImageEnd (0x20 :: (samples ++ [0x0A])) = false) (n : Nat)
    (ops : List (Operation α)) :
    (⟨n, .image (.samples true), [], [], ops, true⟩ : Lexer α).read (samples ++ [0x0A]) =
      ⟨n + samples.length + 1, .image (.samples true), [], [], ops, true⟩ := by
  have hspace : (ImageScan.samples true).Tells [0x20] := ⟨0x20, rfl, rfl⟩
  obtain ⟨scan, hscan, htells⟩ : ∃ scan : ImageScan,
      (⟨n, .image (.samples true), [], [], ops, true⟩ : Lexer α).read (samples ++ [0x0A]) =
        ⟨n + (samples ++ [0x0A]).length, .image scan, [], [], ops, true⟩ ∧
      scan.Tells ([0x20] ++ (samples ++ [0x0A])) := read_samples rfl hspace h
  have hline : scan.Tells (([0x20] ++ samples) ++ [0x0A]) := htells
  obtain rfl := hline.lineEnd
  rw [hscan, List.length_append, List.length_singleton, ← Nat.add_assoc]

/-- Behind the operator of an image its parameters are read. -/
theorem read_opening (n : Nat) (ops : List (Operation α)) :
    (initial.behind ⟨n, ops, false⟩).read (ascii "BI ") = initial.behind ⟨n + 3, ⟨"BI", []⟩ :: ops, true⟩ := by
  have hopen : (initial (α := α)).read (ascii "BI ") = ⟨3, .between, [], [], [⟨"BI", []⟩], true⟩ := rfl
  rw [read_behind ⟨n, ops, false⟩ nofun nofun, hopen, initial_behind]
  simp [behind, Mode.behind, Nat.add_comm]

/-- Values are passed over as the parameters of an image. -/
theorem read_parameters {parameters : Bytes} (h : HasValues α parameters) (n : Nat) (ops : List (Operation α)) :
    (initial.behind ⟨n, ops, true⟩).read (parameters ++ [0x20]) =
      initial.behind ⟨n + parameters.length + 1, ops, true⟩ := by
  have hended := ended_eq h.sound (by rw [h.operatorless]; exact List.forall_mem_nil _) h.uncommented
  have hreact : ((initial (α := α)).read parameters).react 0x20 = (initial.read parameters).ended :=
    react_white rfl (by rw [hended])
  have hspace : (initial (α := α)).read (parameters ++ [0x20]) =
      ⟨parameters.length + 1, .between, [], (initial.read parameters).ended.operands, [], false⟩ := by
    have hlast : (initial (α := α)).read (parameters ++ [0x20]) = (initial.read parameters).step 0x20 :=
      read_append initial parameters [0x20]
    rw [hlast, step, hreact, hended, h.operatorless]
    rfl
  have hquiet : ((initial (α := α)).read (parameters ++ [0x20])).operations = [] := by rw [hspace]
  rw [read_behind ⟨n, ops, true⟩ (fun _ => plain_initial) (fun _ => hquiet), hspace, initial_behind]
  simp only [behind, Mode.behind, if_true, List.map_nil, List.nil_append, Bool.true_or, Lexer.mk.injEq, and_true]
  omega

/-- Behind the parameters of an image its samples are read. -/
theorem read_separator (n : Nat) (ops : List (Operation α)) :
    (initial.behind ⟨n, ops, true⟩).read (ascii "ID ") = ⟨n + 3, .image (.samples true), [], [], ops, true⟩ := by
  rw [initial_behind]
  rfl

/-- Behind an image the reader is as in front. -/
theorem read_closing (n : Nat) (ops : List (Operation α)) :
    (⟨n, .image (.samples true), [], [], ops, true⟩ : Lexer α).read (ascii "EI\n") =
      initial.behind ⟨n + 3, ops, false⟩ := by
  rw [initial_behind]
  rfl

/-- An image is passed over, and counts as one operation. -/
theorem read_inlineImage {parameters samples : Bytes} (hvalues : HasValues α parameters)
    (hsamples : hasImageEnd (0x20 :: (samples ++ [0x0A])) = false) (n : Nat) (ops : List (Operation α)) :
    (initial.behind ⟨n, ops, false⟩).read (inlineImage parameters samples) =
      initial.behind ⟨n + (inlineImage parameters samples).length, ⟨"BI", []⟩ :: ops, false⟩ := by
  have hparts : inlineImage parameters samples = ascii "BI " ++ ((parameters ++ [0x20]) ++
      (ascii "ID " ++ ((samples ++ [0x0A]) ++ ascii "EI\n"))) := by
    have hid : ascii " ID " = [0x20] ++ ascii "ID " := rfl
    have hei : ascii "\nEI\n" = [0x0A] ++ ascii "EI\n" := rfl
    simp only [inlineImage, hid, hei, List.append_assoc]
  have hlength : (inlineImage parameters samples).length = 3 + parameters.length + 1 + 3 + samples.length + 1 + 3 := by
    have hbi : (ascii "BI ").length = 3 := rfl
    have hid : (ascii " ID ").length = 4 := rfl
    have hei : (ascii "\nEI\n").length = 4 := rfl
    simp only [inlineImage, List.length_append, hbi, hid, hei]
  rw [hlength, hparts, read_append, read_opening, read_append, read_parameters hvalues, read_append,
    read_separator, read_append, read_sampleLine hsamples, read_closing]
  simp only [Nat.add_assoc]

end Lexer

open Lexer

variable {α : Type} [Scalar α]

/-- An inline image is one operation without operands, and what is behind it is read as it is alone. -/
theorem lexOperations_inlineImage {a parameters samples : Bytes} (h : Concluded α a) (hvalues : HasValues α parameters)
    (hsamples : hasImageEnd (0x20 :: (samples ++ [0x0A])) = false) (b : Bytes) :
    lexOperations (α := α) (a ++ inlineImage parameters samples ++ b) =
      ⟨(lexOperations a).operations ++ ⟨"BI", []⟩ :: (lexOperations b).operations,
        (lexOperations (α := α) b).fault.map (.behind (a ++ inlineImage parameters samples).length)⟩ := by
  have hread : (initial (α := α)).read (a ++ inlineImage parameters samples ++ b) = (initial.read b).behind
      ⟨(a ++ inlineImage parameters samples).length, ⟨"BI", []⟩ :: (lexOperations a).operations.reverse, false⟩ := by
    rw [read_append, read_append, h.read, frontOf, read_inlineImage hvalues hsamples,
      List.length_append]
    refine read_behind ⟨_, _, false⟩ (fun htrue => ?_) (fun htrue => ?_) <;> cases htrue
  rw [lexOperations_behind rfl hread]
  simp

/-- Samples with brackets and with an `EI` that a word goes on behind, in front of an array that is not closed. -/
theorem lexOperations_inlineImage_binary :
    Concluded Float (ascii "q\n") ∧ HasValues Float (ascii "/W 1 /D [1 0]") ∧
      hasImageEnd (0x20 :: (ascii "(<< )] EIS Q" ++ [0x0A])) = false ∧
      lexOperations (α := Float)
        (ascii "q\n" ++ inlineImage (ascii "/W 1 /D [1 0]") (ascii "(<< )] EIS Q") ++ ascii "BT [1 0") =
        ⟨(lexOperations (ascii "q\n")).operations ++ ⟨"BI", []⟩ :: (lexOperations (ascii "BT [1 0")).operations,
          (lexOperations (α := Float) (ascii "BT [1 0")).fault.map
            (.behind (ascii "q\n" ++ inlineImage (ascii "/W 1 /D [1 0]") (ascii "(<< )] EIS Q")).length)⟩ := by
  have hconcluded : Concluded Float (ascii "q\n") := ⟨rfl, rfl, by decide, rfl⟩
  have hvalues : HasValues Float (ascii "/W 1 /D [1 0]") := ⟨rfl, rfl, nofun⟩
  exact ⟨hconcluded, hvalues, rfl, lexOperations_inlineImage hconcluded hvalues rfl _⟩

end Marginalia
