import Marginalia.Cli.Host

/-!
A working folder as a value: files and folders in it by the names on the way to them. With it the
program can be run on any files without touching any.
-/

namespace Marginalia

/-- The names on the way from the working folder to a file or folder. -/
abbrev Trail := List String

/-- The files, and the folders that were made without a file in them. -/
structure Disk where
  files : List (Trail × Bytes)
  made : List Trail

namespace Disk

def file? (d : Disk) (p : Trail) : Option Bytes :=
  (d.files.find? fun e => e.1 == p).map Prod.snd

/-- A folder is the working folder, one that was made, or one with something in it. -/
def isFolder (d : Disk) (p : Trail) : Bool :=
  p.isEmpty || d.made.any p.isPrefixOf ||
    d.files.any fun e => p.isPrefixOf e.1 && p.length < e.1.length

/-- Why nothing can be looked up at a place that is no folder. -/
def obstacle (d : Disk) (p : Trail) : FileError :=
  if (d.file? p).isSome then .notFolder else .notFound

/-- How many bytes a name may have. -/
def maxName : Nat := 255

/-- How many bytes a path may have. -/
def maxPath : Nat := 4095

/-- Where names lead from a place. Every name but the last has to lead to a folder. Above the working
folder there is nothing. -/
def walk (d : Disk) (p : Trail) : List String → Except FileError Trail
  | [] => .ok p
  | name :: names =>
    if d.isFolder p then
      if name == "" || name == "." then d.walk p names
      else if name == ".." then d.walk p.dropLast names
      else if maxName < name.utf8ByteSize then .error .nameTooLong
      else d.walk (p ++ [name]) names
    else .error (d.obstacle p)

/-- The names of a path in the working folder. -/
def names? (path : String) : Except FileError (List String) :=
  if maxPath < path.utf8ByteSize then .error .nameTooLong
  else if path.startsWith "/" then .error .notFound
  else .ok ((path.toList.splitOn '/').map String.ofList)

def locate (d : Disk) (path : String) : Except FileError Trail := do
  d.walk [] (← names? path)

def read (d : Disk) (path : String) : Except FileError Bytes := do
  let p ← d.locate path
  match d.file? p with
  | some bytes => .ok bytes
  | none => .error (if d.isFolder p then .isFolder else .notFound)

def hasPath (d : Disk) (path : String) : Bool :=
  match d.locate path with
  | .ok p => (d.file? p).isSome || d.isFolder p
  | .error _ => false

/-- Puts a file where it is, or behind all others. -/
def putFile (p : Trail) (bytes : Bytes) : List (Trail × Bytes) → List (Trail × Bytes)
  | [] => [(p, bytes)]
  | e :: es => if e.1 = p then (p, bytes) :: es else e :: putFile p bytes es

/-- The place that a file of a path is written at: in a folder that is there, under a name of its
own. -/
def target (d : Disk) (path : String) : Except FileError Trail := do
  let names ← names? path
  let front := (names.reverse.dropWhile String.isEmpty).reverse
  let folder ← d.walk [] front.dropLast
  if d.isFolder folder then
    match front.getLast? with
    | some name =>
      let p := folder ++ [name]
      if front.length < names.length || name == "." || name == ".." || d.isFolder p then
        .error .isFolder
      else if maxName < name.utf8ByteSize then .error .nameTooLong
      else .ok p
    | none => .error .isFolder
  else .error (d.obstacle folder)

def write (d : Disk) (path : String) (bytes : Bytes) : Except FileError Disk := do
  let p ← d.target path
  .ok { d with files := putFile p bytes d.files }

/-- The place that names lead to if every folder on the way is made. -/
def trailOf (names : List String) : Trail :=
  names.foldl (fun p name =>
    if name == "" || name == "." then p else if name == ".." then p.dropLast else p ++ [name]) []

/-- Makes one folder in a folder that is there. -/
def makeFolder (d : Disk) (names : List String) : Except FileError Disk := do
  let p ← d.walk [] names
  if d.isFolder p || (d.file? p).isSome then .error .alreadyExists
  else if d.isFolder p.dropLast then .ok { d with made := d.made ++ [p] }
  else .error (d.obstacle p.dropLast)

/-- Makes a folder, whose names are given with the last one first, and those that it is in as far as
they are missing. -/
def makeFoldersFrom (d : Disk) : List String → Except FileError Disk
  | [] => .ok d
  | name :: front =>
    let isFolder (d : Disk) : Bool := (d.walk [] (name :: front).reverse).toOption.any d.isFolder
    let made (d : Disk) : Except FileError Disk :=
      if isFolder d then .ok d else d.makeFolder (name :: front).reverse
    match made d with
    | .error .notFound => d.makeFoldersFrom front >>= made
    | outcome => outcome

def makeFolders (d : Disk) (path : String) : Except FileError Disk := do
  d.makeFoldersFrom (← names? path).reverse

end Disk

/-- All that a run of the program can change: the files, what was printed and noted, and how many
identifiers were drawn. -/
structure World where
  disk : Disk
  printed : String
  notes : List String
  ids : Nat → Uuid
  drawn : Nat

namespace World

def start (disk : Disk) (ids : Nat → Uuid) : World := ⟨disk, "", [], ids, 0⟩

/-- Takes over a changed disk. -/
def changed (w : World) : Except FileError Disk → Except FileError Unit × World
  | .ok disk => (.ok (), { w with disk := disk })
  | .error e => (.error e, w)

instance : Host (StateM World) where
  readFile path := fun w => (w.disk.read path, w)
  writeFile path bytes := fun w => w.changed (w.disk.write path bytes)
  makeFolders path := fun w => w.changed (w.disk.makeFolders path)
  pathExists path := fun w => (w.disk.hasPath path, w)
  print s := fun w => ((), { w with printed := w.printed ++ s })
  note s := fun w => ((), { w with notes := w.notes ++ [s] })
  drawId := fun w => (w.ids w.drawn, { w with drawn := w.drawn + 1 })
  nextDone others := fun w => (⟨0, others.succ_pos⟩, w)

end World

end Marginalia
