import Marginalia.Cli.Program

/-!
The program on the real host: files, standard output and random identifiers.
-/

namespace Marginalia

namespace RealHost

def fileError : IO.Error → FileError
  | .noFileOrDirectory .. => .notFound
  | .alreadyExists .. => .alreadyExists
  | .inappropriateType _ code detail => .other code.toNat detail
  | .permissionDenied _ code detail => .other code.toNat detail
  | .resourceExhausted _ code detail => .other code.toNat detail
  | e => .other 5 (toString e)

/-- The outcome of an action that may fail. -/
def attempt {β : Type} (action : IO β) : IO (Except FileError β) := do
  try
    return .ok (← action)
  catch e => return .error (fileError e)

instance : Host IO where
  readFile path := attempt do return (← IO.FS.readBinFile path).toList
  writeFile path bytes := attempt (IO.FS.writeBinFile path ⟨bytes.toArray⟩)
  makeFolders path := attempt (if path.isEmpty then pure () else IO.FS.createDirAll path)
  pathExists path := do
    return (← attempt (IO.FS.realPath path)).isOk
  print s := do (← IO.getStdout).putStr s
  note s := do (← IO.getStderr).putStrLn s
  drawId := do return Uuid.ofRandom (← IO.getRandomBytes 16).toList
  nextDone others := return ⟨0, others.succ_pos⟩

end RealHost

end Marginalia

open Marginalia

def main (arguments : List String) : IO UInt32 := do
  let environment : Environment := {
    settings := ← IO.getEnv "PAGEMARK_SETTINGS"
    configFolder := ← IO.getEnv "XDG_CONFIG_HOME"
    home := ← IO.getEnv "HOME" }
  let ending ← Program.start environment arguments
  for message in Program.complaint ending do
    IO.eprintln message
  return UInt32.ofNat ending.code
