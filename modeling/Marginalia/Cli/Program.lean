import Marginalia.Cli.Subcommand
import Marginalia.Cli.Environment
import Marginalia.Cli.Host
import Marginalia.Cli.Report

/-!
The program: its commands, run on a host. A command that changes a document writes it last, when all
that can be wrong with it is known.
-/

namespace Marginalia

/-- How a run of the program ends. -/
inductive Ending where
  | done
  | failed (f : Failure)
  | misused

/-- The exit code. -/
def Ending.code : Ending → Nat
  | done => 0
  | failed _ => 1
  | misused => 2

namespace Program

variable {m : Type → Type} [Monad m] [Host m]

/-- An action that fails when the host does. -/
def orFail {β : Type} (failure : FileError → Failure) (action : m (Except FileError β)) :
    ExceptT Failure m β := do
  match ← action with
  | .ok v => return v
  | .error e => throw (failure e)

/-- A result of working on a document. -/
def found {β : Type} : Except DocumentError β → ExceptT Failure m β
  | .ok v => return v
  | .error e => throw (.document e)

def print (s : String) : ExceptT Failure m Unit := ExceptT.lift (Host.print s)

/-- A line that tells the user what was done. -/
def note (s : String) : ExceptT Failure m Unit := ExceptT.lift (Host.note (Report.printable s))

def readDocument (path : String) : ExceptT Failure m Bytes :=
  orFail (.unreadable path) (Host.readFile path)

/-- Writes a document over the one read, or to a file of its own. -/
def writeDocument (input : String) (output : Option String) (file : Bytes) :
    ExceptT Failure m Unit := do
  let path := output.getD input
  orFail (.unwritable path) (Host.writeFile path file)
  note ("wrote " ++ path ++ " (" ++ toString file.length ++ " bytes)")

/-- Gives an annotation an identifier if it has none. -/
def identified (a : Mark Float) : ExceptT Failure m (Mark Float) :=
  match a.id with
  | .known _ => return a
  | .pending => do return { a with id := .known (← ExceptT.lift Host.drawId) }

/-- The annotations of a document, all with identifiers. -/
def documentMarks (file : Bytes) : ExceptT Failure m (List (Mark Float)) := do
  (← found (File.marks file)).mapM identified

/-- A list of annotations kept in a file. -/
def readList (path : String) : ExceptT Failure m (List (Mark Float)) := do
  let file ← orFail (.unreadable path) (Host.readFile path)
  match Utf8.decode? file with
  | none => throw (.unreadable path .notText)
  | some cs =>
    match (Json.parse? (String.ofList cs)).bind Interchange.marks? with
    | none => throw (.malformedList path)
    | some marks => marks.mapM identified

def checkPage (page count : Nat) : ExceptT Failure m Unit :=
  if page = 0 || count < page then throw (.noSuchPage page count) else return

/-- The results of tasks that run beside each other, in the order in which the tasks are done. -/
def joinAll {β : Type} : (n : Nat) → Vector β n → m (List β)
  | 0, _ => return []
  | n + 1, running => do
    let next ← Host.nextDone n
    return running[next] :: (← joinAll n (running.eraseIdx next))

/-- The runs of some pages in the order of the pages. Each page is a task of its own. -/
def readPages (d : Document Float) (nesting : Nat) (pages : List Nat) : m (List PageRuns) := do
  let tasks := pages.toArray.map fun page => PageRuns.mk page (d.pageText page nesting)
  let results ← joinAll tasks.size tasks.toVector
  return results.mergeSort fun a b => a.page ≤ b.page

/-- The runs of a page, or of all pages. -/
def extract (s : Settings) (file : Bytes) (page : Option Nat) :
    ExceptT Failure m (List PageRuns) := do
  let d ← found (File.document file)
  let pages ← match page with
    | some page => do
      checkPage page d.pageCount
      pure [page]
    | none => pure ((List.range d.pageCount).map (· + 1))
  ExceptT.lift (readPages d s.maxNesting pages)

def text (s : Settings) (table : Bool) (path : String) (page : Option Nat) :
    ExceptT Failure m Unit := do
  print (Report.pageRuns table (← extract s (← readDocument path) page))

def searchable (s : Settings) (table : Bool) (path : String) (sample : Option Nat) :
    ExceptT Failure m Unit := do
  let sample := sample.getD s.sampleLimit
  print (Report.searchable table path sample (File.isSearchable (← readDocument path) sample))

def search (s : Settings) (table : Bool) (path query : String) : ExceptT Failure m Unit := do
  let pages ← extract s (← readDocument path) none
  print (Report.hits table query (pages.map fun p => ⟨p.page, Selection.search p.runs query⟩))

def annotations (table : Bool) (path : String) : ExceptT Failure m Unit := do
  print (Report.marks table (← documentMarks (← readDocument path)))

/-- Saves annotations in a document as the only ones it has. -/
def saveMarks (s : Settings) (path : String) (output : Option String) (file : Bytes) (scale : Float)
    (marks : List (Mark Float)) : ExceptT Failure m Unit := do
  writeDocument path output (← found (File.save file (s.saveOptions scale) marks))

def add (s : Settings) (path : String) (request : MarkRequest) (output : Option String) :
    ExceptT Failure m Unit := do
  let file ← readDocument path
  checkPage request.page (← found (File.pageCount file))
  let marks ← documentMarks file
  let fresh := s.mark request.kind request.page request.box
  let fresh ← identified { fresh with
    content := request.content.getD fresh.content
    color := request.color.getD fresh.color }
  saveMarks s path output file 1 (marks ++ [fresh])

/-- Prints the selected text, or marks it up. -/
def select (s : Settings) (table : Bool) (path : String) (page : Nat) (drag : ViewerBox Float)
    (kind : Option MarkKind) (output : Option String) : ExceptT Failure m Unit := do
  let file ← readDocument path
  let d ← found (File.document file)
  checkPage page d.pageCount
  let selected := Selection.select (d.pageText page s.maxNesting) drag
  match kind with
  | none => print (Report.selection table selected)
  | some kind =>
    if kind != .highlight && kind != .underline then throw (.notMarkup kind)
    else if selected.isEmpty then note "no text under the selection, nothing to mark"
    else
      let marks ← documentMarks file
      let fresh ← (Selection.marks selected kind page).mapM identified
      saveMarks s path output file 1 (marks ++ fresh)

def save (s : Settings) (path list : String) (scale : Float) (output : Option String) :
    ExceptT Failure m Unit := do
  let file ← readDocument path
  saveMarks s path output file scale (← readList list)

def strip (path : String) (output : Option String) : ExceptT Failure m Unit := do
  writeDocument path output (File.strip (← readDocument path))

/-- Keeps a list of annotations in step with the removal of a page. -/
def renumberList (path : String) (page : Nat) : ExceptT Failure m Unit := do
  let marks := renumberAfterDelete page (← readList path)
  let written := (Interchange.ofMarks marks).pretty 0
  orFail (.unwritable path) (Host.writeFile path (Utf8.encode written.toList))
  note ("renumbered " ++ toString marks.length ++ " annotations in " ++ path)

def deletePage (path : String) (page : Nat) (list output : Option String) :
    ExceptT Failure m Unit := do
  let shorter ← found (File.deletePage (← readDocument path) page)
  match list with
  | some list => renumberList list page
  | none => pure ()
  writeDocument path output shorter

def pages (table : Bool) (path : String) : ExceptT Failure m Unit := do
  print (Report.pageCount table path (← found (File.pageCount (← readDocument path))))

/-- Writes the default settings, over an existing file only if forced to. -/
def initSettings (path : String) (force : Bool) : ExceptT Failure m Unit := do
  if (← ExceptT.lift (Host.pathExists path)) && !force then throw (.settingsExist path)
  match Path.folder? path with
  | some folder => orFail (.settingsFolder folder) (Host.makeFolders folder)
  | none => pure ()
  let written := Settings.default.toJson.pretty 0
  orFail (.settingsUnwritable path) (Host.writeFile path (Utf8.encode written.toList))
  note ("wrote default settings to " ++ path)

/-- Runs a command under the settings of a file. -/
def run (settingsPath : String) (s : Settings) (table : Bool) : Subcommand → ExceptT Failure m Unit
  | .text path page => text s table path page
  | .searchable path sample => searchable s table path sample
  | .search path query => search s table path query
  | .annotations path => annotations table path
  | .add path request output => add s path request output
  | .select path page drag kind output => select s table path page drag kind output
  | .save path list scale output => save s path list scale output
  | .strip path output => strip path output
  | .deletePage path page list output => deletePage path page list output
  | .pages path => pages table path
  | .settings init force =>
    if init then initSettings settingsPath force else print (Report.settings table settingsPath s)

/-- The settings in a file, which are the default ones if it holds none. -/
def loadSettings (path : String) : m Settings := do
  match ← Host.readFile path with
  | .ok file => return (Settings.ofFile? file).getD .default
  | .error _ => return .default

def version : String := "pagemark 0.1.0"

/-- What the program says about itself when it is asked for help. -/
def usage : String :=
  "Extract positioned text from PDF pages and round-trip their annotations\n\n" ++
  "Usage: pagemark [--settings FILE] [--table] [--verbose] COMMAND\n\n" ++
  "Commands:\n" ++
  "  text FILE [-p PAGE]\n" ++
  "  searchable FILE [-s SAMPLE]\n" ++
  "  search FILE QUERY\n" ++
  "  annotations FILE\n" ++
  "  add FILE -x X -y Y --width W --height H [-p PAGE] [-k KIND] [-t TEXT] [-c COLOR] [-o OUTPUT]\n" ++
  "  select FILE -x X -y Y --width W --height H [-p PAGE] [-k KIND] [-o OUTPUT]\n" ++
  "  save FILE ANNOTATIONS [-s SCALE] [-o OUTPUT]\n" ++
  "  strip FILE [-o OUTPUT]\n" ++
  "  delete-page FILE PAGE [-a ANNOTATIONS] [-o OUTPUT]\n" ++
  "  pages FILE\n" ++
  "  settings [--init [--force]]\n"

/-- What is said at the end of a run that did not do what it was asked to. -/
def complaint : Ending → List String
  | .done => []
  | .failed f => f.messages.map ("Error: " ++ ·)
  | .misused => [usage]

/-- A whole run of the program. -/
def start (e : Environment) (arguments : List String) : m Ending := do
  match Invocation.parse e.settings arguments with
  | .error .misuse => return .misused
  | .error .help =>
    Host.print usage
    return .done
  | .error .version =>
    Host.print (version ++ "\n")
    return .done
  | .ok invocation =>
    match e.settingsPath? invocation.settings with
    | none => return .failed .noSettingsFolder
    | some path =>
      let s ← loadSettings path
      match ← (run path s invocation.table invocation.command).run with
      | .ok () => return .done
      | .error f => return .failed f

end Program

end Marginalia
