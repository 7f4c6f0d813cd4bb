import Marginalia.Json.Value

/-!
Writing JSON text: compact, or over several lines with two spaces for each level.
-/

namespace Marginalia

namespace Json

def hexDigit (n : Nat) : Char :=
  (Nat.toDigits 16 n).headD '0'

/-- Quotes, backslashes and control characters are escaped; all else stands as it is. -/
def escapeChar (c : Char) : List Char :=
  if c == '"' then ['\\', '"']
  else if c == '\\' then ['\\', '\\']
  else if c == '\n' then ['\\', 'n']
  else if c == '\r' then ['\\', 'r']
  else if c == '\t' then ['\\', 't']
  else if c.toNat == 8 then ['\\', 'b']
  else if c.toNat == 12 then ['\\', 'f']
  else if c.toNat < 0x20 then
    ['\\', 'u', '0', '0', hexDigit (c.toNat / 16), hexDigit (c.toNat % 16)]
  else [c]

def quoted (s : String) : String :=
  String.ofList ('"' :: s.toList.flatMap escapeChar ++ ['"'])

/-- A numeral as JSON shows it: positional from 0.0001 to below 10 to the 16th and always with a
fraction, otherwise with an exponent. -/
def numeral (d : Decimal) : String :=
  let ds := Decimal.digitsOf d.digits
  let sign := if d.negative then "-" else ""
  let point : Int := d.exponent + (ds.length - 1 : Nat)
  if d.digits = 0 then sign ++ "0.0"
  else if -4 ≤ point && point ≤ 15 then
    if 0 ≤ d.exponent then d.positional ++ ".0" else d.positional
  else
    let power := String.ofList (Decimal.digitsOf point.natAbs)
    let mark := if point < 0 then "e-" else if ds.length = 1 then "e" else "e+"
    let fraction := if ds.length = 1 then "" else "." ++ String.ofList (ds.drop 1)
    sign ++ String.ofList (ds.take 1) ++ fraction ++ mark ++ power

/-- A double in its shortest form; what is no finite number has no form but null. -/
def floatText (x : Float) : String :=
  match Scalar.exact x with
  | .finite negative q => numeral (Shortest.ofRat .double .toEven negative q)
  | _ => "null"

def numberText : JsonNumber → String
  | .int n => toString n
  | .float x => floatText x
  | .tooLarge => "null"

mutual

def compact : Json → String
  | .null => "null"
  | .bool b => if b then "true" else "false"
  | .number n => numberText n
  | .string s => quoted (s.getD "")
  | .array items => "[" ++ compactItems items ++ "]"
  | .object entries => "\x7b" ++ compactEntries entries ++ "\x7d"

def compactItems : List Json → String
  | [] => ""
  | [v] => v.compact
  | v :: vs => v.compact ++ "," ++ compactItems vs

def compactEntries : List (Option String × Json) → String
  | [] => ""
  | [(k, v)] => quoted (k.getD "") ++ ":" ++ v.compact
  | (k, v) :: es => quoted (k.getD "") ++ ":" ++ v.compact ++ "," ++ compactEntries es

end

def indent (level : Nat) : String :=
  String.ofList (List.replicate (2 * level) ' ')

mutual

/-- The value at a level of nesting, empty arrays and objects on one line. -/
def pretty (level : Nat) : Json → String
  | .array [] => "[]"
  | .array items => "[\n" ++ prettyItems (level + 1) items ++ "\n" ++ indent level ++ "]"
  | .object [] => "\x7b\x7d"
  | .object entries => "\x7b\n" ++ prettyEntries (level + 1) entries ++ "\n" ++ indent level ++ "\x7d"
  | .null => "null"
  | .bool b => if b then "true" else "false"
  | .number n => numberText n
  | .string s => quoted (s.getD "")

def prettyItems (level : Nat) : List Json → String
  | [] => ""
  | [v] => indent level ++ v.pretty level
  | v :: vs => indent level ++ v.pretty level ++ ",\n" ++ prettyItems level vs

def prettyEntries (level : Nat) : List (Option String × Json) → String
  | [] => ""
  | [(k, v)] => indent level ++ quoted (k.getD "") ++ ": " ++ v.pretty level
  | (k, v) :: es =>
    indent level ++ quoted (k.getD "") ++ ": " ++ v.pretty level ++ ",\n" ++ prettyEntries level es

end

end Json

end Marginalia
