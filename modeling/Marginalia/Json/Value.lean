import Marginalia.Number.Scalar

/-!
JSON values as they are read from text: entries keep their order and may repeat a key, and what a
text can say but no value can hold is kept, so that only a reader who wants it has to refuse it.
-/

namespace Marginalia

/-- A number in JSON text: an integer of at most 64 bits, a double, or one too large for a double. -/
inductive JsonNumber where
  | int (n : Int)
  | float (x : Float)
  | tooLarge
deriving Inhabited

/-- A JSON value. A text that escapes half of a surrogate pair has no string behind it. -/
inductive Json where
  | null
  | bool (b : Bool)
  | number (n : JsonNumber)
  | string (text : Option String)
  | array (items : List Json)
  | object (entries : List (Option String × Json))
deriving Inhabited

namespace Json

def ofString (s : String) : Json := .string (some s)

def ofInt (n : Int) : Json := .number (.int n)

def ofNat (n : Nat) : Json := .number (.int n)

def ofFloat (x : Float) : Json := .number (.float x)

/-- An object with distinct keys in the order given. -/
def ofEntries (entries : List (String × Json)) : Json :=
  .object (entries.map fun (k, v) => (some k, v))

mutual

/-- Whether all of the value can be held: no number out of range, no half of a surrogate pair. -/
def wellFormed : Json → Bool
  | .number .tooLarge => false
  | .string none => false
  | .array items => allWellFormed items
  | .object entries => entriesWellFormed entries
  | _ => true

def allWellFormed : List Json → Bool
  | [] => true
  | v :: vs => v.wellFormed && allWellFormed vs

def entriesWellFormed : List (Option String × Json) → Bool
  | [] => true
  | (k, v) :: es => k.isSome && v.wellFormed && entriesWellFormed es

end

/-- The last value of a key, as a table built by insertion holds it. -/
def find? (key : String) : Json → Option Json
  | .object entries => (entries.reverse.find? fun e => e.1 == some key).map Prod.snd
  | _ => none

mutual

/-- How many arrays and objects are around the innermost value. -/
def depth : Json → Nat
  | .array items => depthOfAll items + 1
  | .object entries => depthOfEntries entries + 1
  | _ => 0

def depthOfAll : List Json → Nat
  | [] => 0
  | v :: vs => max v.depth (depthOfAll vs)

def depthOfEntries : List (Option String × Json) → Nat
  | [] => 0
  | (_, v) :: es => max v.depth (depthOfEntries es)

end

end Json

end Marginalia
