import Marginalia.Number.Scalar

/-!
Command-line arguments as options and operands. An option has a letter, a name or both; its value
stands behind it in the same argument or is the next one.
-/

namespace Marginalia

/-- An option that a command knows. -/
structure OptionRule where
  key : String
  letter : Option Char
  isNamed : Bool
  takesValue : Bool
  /-- Whether the next argument is the value even if it looks like a negative number. -/
  takesNegative : Bool

namespace OptionRule

/-- An option without a value that has a name only. -/
def flag (key : String) : OptionRule := ⟨key, none, true, false, false⟩

/-- An option with a value that has a name, and perhaps a letter. -/
def value (key : String) (letter : Option Char) : OptionRule := ⟨key, letter, true, true, false⟩

/-- An option with a value that has a letter only. -/
def letterValue (key : String) (letter : Char) : OptionRule :=
  ⟨key, some letter, false, true, false⟩

end OptionRule

/-- Why arguments are not acted on: they are wrong, or they only ask for words about the program. -/
inductive Aside where
  | misuse
  | help
  | version
deriving DecidableEq, Repr

/-- What arguments hold: the values of options, an empty one for each flag, and the operands. -/
structure Arguments where
  options : List (String × String)
  operands : List String

namespace Arguments

def empty : Arguments := ⟨[], []⟩

def value? (a : Arguments) (key : String) : Option String :=
  (a.options.find? fun e => e.1 == key).map Prod.snd

def has (a : Arguments) (key : String) : Bool := (a.value? key).isSome

/-- Adds an option, which may be given once only. -/
def withOption (a : Arguments) (key value : String) : Except Aside Arguments :=
  if a.has key then .error .misuse
  else .ok { a with options := a.options ++ [(key, value)] }

def withOperand (a : Arguments) (text : String) : Arguments :=
  { a with operands := a.operands ++ [text] }

/-- What an argument is when it stands where an option may begin. -/
inductive Role where
  | operand
  | lastOption
  | option (rule : OptionRule) (value : Option String)
  | unknown

/-- Digits, with a point among them but not in front, and an exponent without a sign. -/
def looksNumeric (cs : List Char) : Bool :=
  let isMark (c : Char) : Bool := c == 'e' || c == 'E'
  let mantissa := cs.takeWhile fun c => !isMark c
  let wellFormed := mantissa.head? != some '.' && mantissa.count '.' ≤ 1 &&
    mantissa.all fun c => c.isDigit || c == '.'
  match cs.dropWhile fun c => !isMark c with
  | [] => wellFormed
  | _ :: power => wellFormed && !mantissa.isEmpty && !power.isEmpty && power.all Char.isDigit

/-- The role of an argument: two hyphens and a name, which an equals sign may join to a value, or one
hyphen and a letter with the value behind it. -/
def role (rules : List OptionRule) (argument : String) : Role :=
  match argument.toList with
  | ['-', '-'] => .lastOption
  | '-' :: '-' :: cs =>
    let name := String.ofList (cs.takeWhile (· ≠ '='))
    match rules.find? fun r => r.isNamed && r.key == name with
    | some r =>
      match cs.dropWhile (· ≠ '=') with
      | [] => .option r none
      | _ :: value => if r.takesValue then .option r (some (String.ofList value)) else .unknown
    | none => .unknown
  | '-' :: c :: cs =>
    match rules.find? fun r => r.letter == some c with
    | some r =>
      match cs with
      | [] => .option r none
      | '=' :: value => if r.takesValue then .option r (some (String.ofList value)) else .unknown
      | value => .option r (if r.takesValue then some (String.ofList value) else none)
    | none => .unknown
  | _ => .operand

/-- Whether an argument can be the value of the option in front of it: it does not start like an
option, or the option takes what looks like a negative number. -/
def canFollow (rule : OptionRule) (argument : String) : Bool :=
  match argument.toList with
  | '-' :: c :: cs => rule.takesNegative && looksNumeric (c :: cs)
  | _ => true

/-- The options that every command answers without doing anything. -/
def aside? (key : String) : Option Aside :=
  if key == "help" then some .help else if key == "version" then some .version else none

/-- Reads arguments up to their end, or up to the first operand if that is to choose a command. Gives
what was read and the arguments left. -/
def read (rules : List OptionRule) (toCommand : Bool) :
    Arguments → List String → Except Aside (Arguments × List String)
  | a, [] => .ok (a, [])
  | a, argument :: rest =>
    match role rules argument with
    | .unknown => .error .misuse
    | .operand =>
      if toCommand then .ok (a, argument :: rest)
      else read rules toCommand (a.withOperand argument) rest
    | .lastOption =>
      if toCommand then .error .misuse
      else .ok ({ a with operands := a.operands ++ rest }, [])
    | .option rule (some value) =>
      match a.withOption rule.key value with
      | .ok a => read rules toCommand a rest
      | .error e => .error e
    | .option rule none =>
      match aside? rule.key with
      | some aside => .error aside
      | none =>
        if rule.takesValue then
          match rest with
          | value :: rest =>
            if canFollow rule value then
              match a.withOption rule.key value with
              | .ok a => read rules toCommand a rest
              | .error e => .error e
            else .error .misuse
          | [] => .error .misuse
        else
          match a.withOption rule.key "" with
          | .ok a => read rules toCommand a rest
          | .error e => .error e

/-- A natural number of so many bits, whose sign may be written. Minus zero is a number only where
signed numbers are read. -/
def nat? (bits : Nat) (text : String) : Option Nat :=
  (Decimal.parseInt? text.toList).bind fun n =>
    if 0 ≤ n && n < 2 ^ bits then some n.toNat else none

/-- A natural number that may have a plus sign in front, but no minus sign. -/
def count? (bits : Nat) (text : String) : Option Nat :=
  if text.toList.head? == some '-' then none else nat? bits text

/-- A decimal numeral, or a word for infinity or for no number, in any case and with a sign. -/
def number? {α : Type} [Scalar α] (text : String) : Option α :=
  let (negative, cs) := Decimal.takeSign text.toList
  let signed (x : α) : α := if negative then -x else x
  match String.ofList (cs.map Char.toLower) with
  | "inf" | "infinity" => some (signed (Scalar.one / Scalar.zero))
  | "nan" => some (signed (Scalar.zero / Scalar.zero))
  | _ => (Decimal.parse? text.toList).map Scalar.ofDecimal

end Arguments

end Marginalia
