import Marginalia.Cli.Failure
import Marginalia.Mark.Uuid

/-!
What the program needs around it: files, somewhere to print, identifiers that are new, and tasks that run beside each
other.
-/

namespace Marginalia

class Host (m : Type → Type) where
  readFile : String → m (Except FileError Bytes)
  /-- Replaces a file, or makes it. On failure nothing changes. -/
  writeFile : String → Bytes → m (Except FileError Unit)
  /-- Makes a folder and those that it is in, as far as they are missing. -/
  makeFolders : String → m (Except FileError Unit)
  pathExists : String → m Bool
  print : String → m Unit
  /-- Shows a line beside the output. -/
  note : String → m Unit
  drawId : m Uuid
  /-- Which of the tasks still running, one more than the number, is done next. -/
  nextDone : (others : Nat) → m (Fin (others + 1))

end Marginalia
