/-!
What the surroundings of the program say about its settings, and the paths made from that.
-/

namespace Marginalia

namespace Path

/-- A path inside a folder. -/
def joined (folder name : String) : String :=
  if folder.endsWith "/" then folder ++ name else folder ++ "/" ++ name

/-- Drops, from the end, names that lead nowhere; the names are those of a path, the last one first. A
dot in front of a path stays. -/
def trimmed : List String → List String
  | [] => []
  | [name] => if name == "" then [] else [name]
  | name :: names => if name == "" || name == "." then trimmed names else name :: names

/-- The path of the folder that a path is in, an empty one for the working folder. The root is in
none. -/
def folder? (path : String) : Option String :=
  match trimmed (path.splitOn "/").reverse with
  | [] => none
  | _ :: names =>
    match trimmed names with
    | [] => some (if path.startsWith "/" then "/" else "")
    | names => some ("/".intercalate names.reverse)

end Path

/-- The variables that say where settings are: their file, the folder for those of all programs, and
the user's own folder. -/
structure Environment where
  settings : Option String
  configFolder : Option String
  home : Option String

namespace Environment

/-- The folder for the settings of all programs. -/
def configFolder? (e : Environment) : Option String :=
  match e.configFolder.filter (·.startsWith "/") with
  | some folder => some folder
  | none => (e.home.filter fun h => !h.isEmpty).map (Path.joined · ".config")

/-- The settings file: the one asked for, or the one in its own folder among those of all programs. -/
def settingsPath? (e : Environment) (asked : Option String) : Option String :=
  match asked with
  | some path => some path
  | none => e.configFolder?.map fun folder => Path.joined (Path.joined folder "pagemark") "settings.json"

end Environment

end Marginalia
