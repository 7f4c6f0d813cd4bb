import Marginalia.Json.Value

/-!
Reading records out of JSON values. A record is an object, whose unknown keys are passed over and whose
known keys come once, or an array with the fields in order.
-/

namespace Marginalia

namespace Json

/-- The fields of a record that are there, with their values. -/
abbrev Fields := List (String × Json)

/-- No key occurs twice. -/
def distinctKeys : Fields → Bool
  | [] => true
  | (k, _) :: rest => !rest.any (fun e => e.1 == k) && distinctKeys rest

/-- The fields of a record with these field names. -/
def record? (names : List String) : Json → Option Fields
  | .object entries =>
    match entries.mapM fun (k, v) => k.map fun k => (k, v) with
    | some entries =>
      let known := entries.filter fun e => names.contains e.1
      if distinctKeys known then some known else none
    | none => none
  | .array items => if names.length < items.length then none else some (names.zip items)
  | _ => none

namespace Fields

def value? (fs : Fields) (name : String) : Option Json :=
  (List.find? (fun e => e.1 == name) fs).map Prod.snd

/-- A field that has to be there. -/
def required {β : Type} (fs : Fields) (name : String) (read : Json → Option β) : Option β :=
  (value? fs name).bind read

/-- A field that has a default when it is not there; a value that is there has to be readable. -/
def optional {β : Type} (fs : Fields) (name : String) (read : Json → Option β) (default : β) :
    Option β :=
  match value? fs name with
  | some v => read v
  | none => some default

end Fields

def string? : Json → Option String
  | .string s => s
  | _ => none

def bool? : Json → Option Bool
  | .bool b => some b
  | _ => none

/-- A double; an integer is one too. -/
def float? : Json → Option Float
  | .number (.int n) => some (Float.ofInt n)
  | .number (.float x) => some x
  | _ => none

/-- An integer of a range. -/
def intWithin? (lo hi : Int) : Json → Option Int
  | .number (.int n) => if lo ≤ n && n ≤ hi then some n else none
  | _ => none

/-- A natural number of so many bits. -/
def nat? (bits : Nat) (v : Json) : Option Nat :=
  (intWithin? 0 (2 ^ bits - 1) v).map Int.toNat

def list? {β : Type} (read : Json → Option β) : Json → Option (List β)
  | .array items => items.mapM read
  | _ => none

/-- The name of a constant: a string, or the only key of an object whose value is null. -/
def constant? : Json → Option String
  | .string s => s
  | .object [(k, .null)] => k
  | _ => none

end Json

end Marginalia
