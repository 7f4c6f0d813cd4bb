import Marginalia.Text.Blank

/-!
Looking for a pattern at every position of a text, from the left.
-/

namespace Marginalia

/-- The first position, the end included, at which a reader succeeds. -/
def firstMatch? {β : Type} (f : List Char → Option β) : List Char → Option β
  | [] => f []
  | c :: cs =>
    match f (c :: cs) with
    | some v => some v
    | none => firstMatch? f cs

/-- The text behind an expected beginning. -/
def expectChars? (word : List Char) (cs : List Char) : Option (List Char) :=
  if word.isPrefixOf cs then some (cs.drop word.length) else none

/-- The text behind white space, of which there is at least some. -/
def someBlank? (cs : List Char) : Option (List Char) :=
  let rest := cs.dropWhile Unicode.isWhite
  if rest.length < cs.length then some rest else none

/-- A row of characters of a class, at least one of them. -/
def someRow? (p : Char → Bool) (cs : List Char) : Option (List Char × List Char) :=
  let row := cs.takeWhile p
  if row.isEmpty then none else some (row, cs.dropWhile p)

end Marginalia
