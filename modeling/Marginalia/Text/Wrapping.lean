import Marginalia.Text.Blank

/-!
Breaking text into lines of at most so many characters. Line breaks in the text always break; words
are kept whole unless they are longer than a line.
-/

namespace Marginalia

namespace Wrapping

/-- The paragraphs between line breaks. -/
def paragraphs : List Char → List (List Char)
  | [] => [[]]
  | c :: cs =>
    if c == '\n' then [] :: paragraphs cs
    else
      match paragraphs cs with
      | p :: ps => (c :: p) :: ps
      | [] => [[c]]

/-- A word cut into pieces of `width` characters, the last of which may be shorter. The piece under
way is kept in reverse. -/
def piecesFrom (width : Nat) (piece : List Char) : List Char → List (List Char)
  | [] => [piece.reverse]
  | c :: cs =>
    if piece.length < width then piecesFrom width (c :: piece) cs
    else piece.reverse :: piecesFrom width [c] cs

def pieces (width : Nat) (word : List Char) : List (List Char) := piecesFrom width [] word

/-- Lines that are finished and the one under way. -/
structure Lines where
  done : List (List Char)
  line : List Char

namespace Lines

/-- The lines with the one under way finished too, unless it is empty. -/
def finished (ls : Lines) : List (List Char) :=
  if ls.line.isEmpty then ls.done else ls.done ++ [ls.line]

/-- Puts a word behind the line under way, or on a line of its own. A word of several pieces starts a
line, and all its pieces but the last are lines. -/
def add (width : Nat) (ls : Lines) (word : List Char) : Lines :=
  match pieces width word with
  | [piece] =>
    if ls.line.isEmpty then { ls with line := piece }
    else if ls.line.length + 1 + piece.length ≤ width then { ls with line := ls.line ++ ' ' :: piece }
    else ⟨ls.finished, piece⟩
  | ps => ⟨ls.finished ++ ps.dropLast, ps.getLastD []⟩

def all (ls : Lines) : List (List Char) := ls.done ++ [ls.line]

end Lines

/-- The lines of a paragraph, of which there is at least one. -/
def paragraph (width : Nat) (cs : List Char) : List (List Char) :=
  ((Unicode.words cs).foldl (Lines.add width) ⟨[], []⟩).all

/-- The lines of a text. -/
def lines (width : Nat) (text : List Char) : List (List Char) :=
  (paragraphs text).flatMap (paragraph width)

end Wrapping

end Marginalia
