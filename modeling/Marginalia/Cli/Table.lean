/-!
Tables of text in columns.
-/

namespace Marginalia

namespace Table

/-- A line without the carriage return that may stand in front of its line feed. -/
def withoutReturn (line : String) : String :=
  let cs := line.toList
  if cs.getLast? == some '\r' then String.ofList cs.dropLast else line

/-- The lines of a cell. The last one needs no line feed behind it. -/
def cellLines (cell : String) : List String :=
  let pieces := cell.splitOn "\n"
  pieces.dropLast.map withoutReturn ++ (pieces.drop (pieces.length - 1)).filter fun s => !s.isEmpty

/-- How wide a cell is. All columns but the last, whose width is never needed, hold ASCII text, where
every character takes one place. -/
def cellWidth (cell : String) : Nat :=
  (cellLines cell).foldl (fun w line => max w line.length) 0

/-- Takes the wider of two columns at every position. -/
def wider : List Nat → List Nat → List Nat
  | [], vs => vs
  | ws, [] => ws
  | w :: ws, v :: vs => max w v :: wider ws vs

/-- The widths of the columns. -/
def widths (rows : List (List String)) : List Nat :=
  rows.foldl (fun ws cells => wider ws (cells.map cellWidth)) []

/-- One line of a row: each cell between two blanks and filled up to its column, but for the last. -/
def line : List (String × Nat) → String
  | [] => ""
  | [(text, _)] => " " ++ text ++ " "
  | (text, width) :: cells =>
    " " ++ text ++ String.ofList (List.replicate (width - text.length) ' ') ++ " " ++ line cells

/-- A row takes as many lines as its highest cell, and at least one. -/
def row (ws : List Nat) (cells : List String) : String :=
  let columns := cells.map cellLines
  let height := columns.foldl (fun h lines => max h lines.length) 1
  String.join ((List.range height).map fun i =>
    line ((columns.map fun lines => lines[i]?.getD "").zip ws) ++ "\n")

def render (rows : List (List String)) : String :=
  String.join (rows.map (row (widths rows)))

end Table

end Marginalia
