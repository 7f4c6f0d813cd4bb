import Marginalia.Mark.Writer
import Marginalia.Proofs.Text.Encoding

/-!
Which encoding the bytes of a text are read in. Nothing beside the bytes says it: a byte order mark is taken for
UTF-16, and without one UTF-8 is tried before single bytes. A text in one of the first two encodings is told by its
bytes, whatever characters it has, so a stored text is read in the encoding that it was stored in.
-/

namespace Marginalia

namespace TextString

inductive Coding where
  /-- UTF-16 behind a byte order mark. -/
  | utf16
  | utf8
  /-- One byte for each character. -/
  | latin1
deriving DecidableEq, Repr

namespace Coding

/-- The characters of bytes in an encoding, if they can be in it. Unpaired surrogates and an odd byte are no
reason against UTF-16. -/
def read? : Coding → Bytes → Option (List Char)
  | utf16, bs =>
    match bs with
    | 0xFE :: 0xFF :: rest => some (Utf16.decode rest)
    | _ => none
  | utf8, bs => Utf8.decode? bs
  | latin1, bs => some (Latin1.decode bs)

/-- The encoding that bytes are taken to be in, the first that they can be in. -/
def guess (bs : Bytes) : Coding :=
  if (utf16.read? bs).isSome then utf16
  else if (utf8.read? bs).isSome then utf8
  else latin1

/-- The encoding that a text is stored in. -/
def ofText (text : String) : Coding :=
  if isAscii text.toList then utf8 else utf16

theorem utf16_read?_eq_none {bs : Bytes} (h : ∀ rest, bs ≠ 0xFE :: 0xFF :: rest) : utf16.read? bs = none := by
  rw [read?]
  exact h

theorem guess_marked (rest : Bytes) : guess (0xFE :: 0xFF :: rest) = utf16 := rfl

/-- Bytes that can be in UTF-8 cannot be in UTF-16 as well, so it does not matter which is tried first. -/
theorem guess_of_utf8 {bs : Bytes} {cs : List Char} (h : utf8.read? bs = some cs) : guess bs = utf8 := by
  have hnot : utf16.read? bs = none := by
    refine utf16_read?_eq_none fun rest hbs => ?_
    have hmark : utf8.read? (0xFE :: 0xFF :: rest) = none := Utf8.decode?_mark (0xFF :: rest)
    rw [hbs, hmark] at h
    cases h
  rw [guess, hnot, h]
  rfl

theorem guess_neither {bs : Bytes} (h₁ : utf16.read? bs = none) (h₂ : utf8.read? bs = none) : guess bs = latin1 := by
  rw [guess, h₁, h₂]
  rfl

/-- The text of bytes is what they are in the encoding that they are taken to be in. -/
theorem read?_guess (bs : Bytes) : (guess bs).read? bs = some (decode bs).toList := by
  unfold decode
  split
  · rw [guess_marked, String.toList_ofList]
    rfl
  · rename_i hmark
    cases hread : Utf8.decode? bs with
    | some cs =>
      rw [guess_of_utf8 hread, String.toList_ofList]
      exact hread
    | none =>
      rw [guess_neither (utf16_read?_eq_none hmark) hread, String.toList_ofList]
      rfl

/-- A stored text is taken to be in the encoding that it is stored in. -/
theorem guess_encode (text : String) : guess (encode text) = ofText text := by
  simp only [encode, ofText]
  split
  · exact guess_of_utf8 (Utf8.decode?_encode text.toList)
  · exact guess_marked (Utf16.encode text.toList)

/-- Single bytes can look like UTF-8, and are then read as it: no text is stored in single bytes. -/
example : guess [0xC3, 0xA4] = utf8 ∧ guess [0xE4] = latin1 := by decide

end Coding

end TextString

namespace MarkWriter

open TextString

variable {α : Type}

/-- A string object says in its bytes alone how its text is to be read: they are taken to be in the encoding that
was chosen for the text, and are in that encoding the characters of the text. -/
theorem decode_textObject (text : String) : ∃ bytes,
    (textObject text : Object α) = .string bytes (Coding.ofText text = .utf16) ∧
      Coding.guess bytes = Coding.ofText text ∧ (Coding.ofText text).read? bytes = some text.toList ∧
      decode bytes = text := by
  have hform : (!isAscii text.toList) = decide (Coding.ofText text = .utf16) := by
    cases hascii : isAscii text.toList <;> simp [Coding.ofText, hascii]
  have hguess : Coding.guess (encode text) = Coding.ofText text := Coding.guess_encode text
  have hdecode : decode (encode text) = text := decode_encode text
  have hread : (Coding.ofText text).read? (encode text) = some text.toList := by
    rw [← hguess, Coding.read?_guess, hdecode]
  exact ⟨encode text, by rw [textObject, hform], hguess, hread, hdecode⟩

end MarkWriter

end Marginalia
