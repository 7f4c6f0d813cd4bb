import Marginalia.Cli.Settings
import Marginalia.Cli.Table
import Marginalia.Json.Printer
import Marginalia.Mark.Selection

/-!
How results are shown: as JSON, or as a table.
-/

namespace Marginalia

/-- A page and the runs on it. -/
structure PageRuns where
  page : Nat
  runs : List (TextRun Float)

namespace Report

open Json Interchange

/-- Text without the control characters that are no white space. -/
def printable (s : String) : String :=
  String.ofList (s.toList.filter fun c =>
    c != '\x7f' && (0x20 ≤ c.toNat || [0x09, 0x0A, 0x0C, 0x0D].contains c.toNat))

def line (s : String) : String := printable s ++ "\n"

def json (v : Json) : String := line (v.pretty 0)

/-- A length in a table. -/
def tenths (x : Float) : String := Scalar.fixed 1 x

def truth (b : Bool) : String := if b then "true" else "false"

def pageRuns (table : Bool) (pages : List PageRuns) : String :=
  if table then
    Table.render (["Page", "X", "Y", "Width", "Height", "Text"] :: pages.flatMap fun p =>
      p.runs.map fun r => [toString p.page, tenths r.box.x, tenths r.box.y, tenths r.box.width,
        tenths r.box.height, r.text])
  else
    json (.array (pages.map fun p =>
      ofEntries [("page", ofNat p.page), ("runs", .array (p.runs.map ofRun))]))

def searchable (table : Bool) (file : String) (sample : Nat) (found : Bool) : String :=
  if table then
    Table.render [["File", file], ["Pages checked", toString sample], ["Searchable", truth found]]
  else json (ofEntries [("sample", ofNat sample), ("searchable", .bool found)])

/-- The runs that a query was found in. -/
def hits (table : Bool) (query : String) (pages : List PageRuns) : String :=
  if table then
    if pages.all fun p => p.runs.isEmpty then line ("No matches for " ++ Quoted.render query ++ ".")
    else
      Table.render (["Page", "X", "Y", "Text"] :: pages.flatMap fun p =>
        p.runs.map fun r => [toString p.page, tenths r.box.x, tenths r.box.y, r.text])
  else
    json (.array (pages.flatMap fun p => p.runs.map fun r =>
      ofEntries (("page", ofNat p.page) :: ("text", ofString r.text) :: boxFields r.box)))

def marks (table : Bool) (ms : List (Mark Float)) : String :=
  if table then
    if ms.isEmpty then line "No annotations."
    else
      Table.render (["Id", "Kind", "Page", "X", "Y", "Width", "Height", "Content"] :: ms.map fun m =>
        [m.id.text, m.kind.name, toString m.page, tenths m.box.x, tenths m.box.y, tenths m.box.width,
          tenths m.box.height, m.content])
  else json (ofMarks ms)

/-- A run with its keys sorted. -/
def sortedRun (r : TextRun Float) : Json :=
  ofEntries [("height", ofFloat r.box.height), ("text", ofString r.text), ("width", ofFloat r.box.width),
    ("x", ofFloat r.box.x), ("y", ofFloat r.box.y)]

def selection (table : Bool) (selected : List (TextRun Float)) : String :=
  let text := Selection.text selected
  if table then Table.render [["Runs", toString selected.length], ["Text", text]]
  else json (ofEntries [("runs", .array (selected.map sortedRun)), ("text", ofString text)])

def pageCount (table : Bool) (file : String) (count : Nat) : String :=
  if table then Table.render [["File", file], ["Pages", toString count]]
  else json (ofEntries [("pages", ofNat count)])

def settings (table : Bool) (file : String) (s : Settings) : String :=
  if table then
    Table.render [["File", file], ["Font family", s.fontFamily], ["Font size", toString s.fontSize],
      ["Colour", s.color.text], ["Bold", truth s.bold], ["Sample limit", toString s.sampleLimit],
      ["Max form depth", toString s.maxNesting],
      ["Font chain", if s.fonts.isSome then "custom" else "built-in"]]
  else json s.toJson

end Report

end Marginalia
