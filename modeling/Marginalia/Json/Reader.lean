import Marginalia.Json.Value

/-!
Reading JSON text. Numbers are taken digit by digit into a 64-bit significand and scaled by a power
of ten afterwards, so that what a long numeral reads as is fixed by arithmetic on doubles.
-/

namespace Marginalia

namespace JsonReader

def isBlank (c : Char) : Bool :=
  c == ' ' || c == '\n' || c == '\t' || c == '\r'

def skipBlank (cs : List Char) : List Char :=
  cs.dropWhile isBlank

def hexDigit? (c : Char) : Option Nat :=
  if c.isDigit then some (c.toNat - 48)
  else if 'a' ≤ c && c ≤ 'f' then some (c.toNat - 87)
  else if 'A' ≤ c && c ≤ 'F' then some (c.toNat - 55)
  else none

def hexUnit? (a b c d : Char) : Option Nat := do
  let a ← hexDigit? a
  let b ← hexDigit? b
  let c ← hexDigit? c
  let d ← hexDigit? d
  return ((a * 16 + b) * 16 + c) * 16 + d

/-- The character behind a backslash that is not `u`. -/
def shortEscape? : Char → Option Char
  | '"' => some '"'
  | '\\' => some '\\'
  | '/' => some '/'
  | 'b' => some (Char.ofNat 8)
  | 'f' => some (Char.ofNat 12)
  | 'n' => some '\n'
  | 'r' => some '\r'
  | 't' => some '\t'
  | _ => none

/-- One piece of a string: a character, or a UTF-16 code unit written as an escape. -/
inductive Piece where
  | char (c : Char)
  | unit (u : Nat)

/-- Joins escaped code units; `none` if one is half of a pair whose other half does not follow. -/
def joinPieces : List Piece → Option (List Char)
  | [] => some []
  | .char c :: ps => (joinPieces ps).map (c :: ·)
  | .unit h :: .unit l :: ps =>
    if 0xD800 ≤ h && h < 0xDC00 then
      if 0xDC00 ≤ l && l < 0xE000 then
        (joinPieces ps).map (Char.ofNat (0x10000 + (h - 0xD800) * 1024 + (l - 0xDC00)) :: ·)
      else none
    else if 0xDC00 ≤ h && h < 0xE000 then none
    else (joinPieces (.unit l :: ps)).map (Char.ofNat h :: ·)
  | .unit u :: ps =>
    if 0xD800 ≤ u && u < 0xE000 then none else (joinPieces ps).map (Char.ofNat u :: ·)

/-- The rest of a string behind its opening quote, and what follows it. -/
def stringPieces (acc : List Piece) : List Char → Option (List Piece × List Char)
  | [] => none
  | '"' :: cs => some (acc.reverse, cs)
  | '\\' :: 'u' :: a :: b :: c :: d :: cs =>
    match hexUnit? a b c d with
    | some u => stringPieces (.unit u :: acc) cs
    | none => none
  | '\\' :: c :: cs =>
    match shortEscape? c with
    | some e => stringPieces (.char e :: acc) cs
    | none => none
  | c :: cs =>
    if c == '\\' || c.toNat < 0x20 then none else stringPieces (.char c :: acc) cs

def string? (cs : List Char) : Option (Option String × List Char) := do
  let (pieces, rest) ← stringPieces [] cs
  return ((joinPieces pieces).map String.ofList, rest)

/-- A row of digits taken into a significand. When one more digit does not fit into 64 bits, the
number of digits left over is told instead. -/
def takeDigits (significand : Nat) : List Char → Nat × Nat
  | [] => (significand, 0)
  | c :: cs =>
    let next := significand * 10 + (c.toNat - 48)
    if next < 2 ^ 64 then takeDigits next cs else (significand, cs.length + 1)

/-- The significand times a power of ten, or `none` if it is too large for a double. -/
def scale (significand : Nat) (exponent : Int) : JsonNumber :=
  let rec shrink (fuel : Nat) (x : Float) (exponent : Int) : JsonNumber :=
    if exponent < -308 then
      match fuel with
      | 0 => .float 0
      | fuel + 1 => if x == 0 then .float x else shrink fuel (x / 1e308) (exponent + 308)
    else .float (x / Float.ofScientific 1 false exponent.natAbs)
  let x := Float.ofNat significand
  if exponent < 0 then shrink 4 x exponent
  else if exponent ≤ 308 then
    let y := x * Float.ofScientific 1 false exponent.natAbs
    if y.isInf then .tooLarge else .float y
  else if x == 0 then .float x
  else .tooLarge

def negate : JsonNumber → JsonNumber
  | .float x => .float (-x)
  | n => n

/-- The exponent behind `e`: its value, or whether it is so large in which direction. -/
def exponent? (cs : List Char) : Option (Int × List Char) :=
  let (negative, cs) := match cs with
    | '-' :: r => (true, r)
    | '+' :: r => (false, r)
    | r => (false, r)
  let ds := cs.takeWhile Char.isDigit
  if ds.isEmpty then none
  else
    let n : Int := Decimal.natOfDigits ds
    some (if negative then -n else n, cs.dropWhile Char.isDigit)

/-- Reads a number at its first digit, the sign being known. -/
def number? (negative : Bool) (cs : List Char) : Option (JsonNumber × List Char) := do
  let whole := cs.takeWhile Char.isDigit
  let rest := cs.dropWhile Char.isDigit
  if whole.isEmpty || (whole.length > 1 && whole.head? == some '0') then none
  else
    let (significand, dropped) := takeDigits 0 whole
    let signed (n : JsonNumber) : JsonNumber := if negative then negate n else n
    let withExponent (significand : Nat) (power : Int) (rest : List Char) :
        Option (JsonNumber × List Char) :=
      match rest with
      | c :: r =>
        if c == 'e' || c == 'E' then do
          let (e, r) ← exponent? r
          if e.natAbs > 2147483647 then
            if significand ≠ 0 && 0 < e then return (.tooLarge, r)
            else return (signed (.float 0), r)
          else return (signed (scale significand (power + e)), r)
        else some (signed (scale significand power), rest)
      | [] => some (signed (scale significand power), rest)
    match rest with
    | '.' :: r =>
      let fraction := r.takeWhile Char.isDigit
      let r := r.dropWhile Char.isDigit
      if fraction.isEmpty then none
      else
        let (significand, unused) := takeDigits significand fraction
        withExponent significand ((dropped : Int) - (fraction.length - unused : Nat)) r
    | c :: _ =>
      if c == 'e' || c == 'E' || dropped > 0 then withExponent significand dropped rest
      else some (whole? significand, rest)
    | [] => if dropped > 0 then withExponent significand dropped rest else some (whole? significand, rest)
where
  /-- A whole number is an integer if 64 bits hold it; minus zero is a double. -/
  whole? (n : Nat) : JsonNumber :=
    if !negative then .int n
    else if n = 0 || n > 2 ^ 63 then .float (-(Float.ofNat n))
    else .int (-(n : Int))

def keyword? (word : List Char) (v : Json) (cs : List Char) : Option (Json × List Char) :=
  if word.isPrefixOf cs then some (v, cs.drop word.length) else none

mutual

/-- Reads one value. The fuel bounds the tokens still to come. -/
def value? : Nat → List Char → Option (Json × List Char)
  | 0, _ => none
  | fuel + 1, cs =>
    match skipBlank cs with
    | '"' :: r => (string? r).map fun (s, r) => (.string s, r)
    | '[' :: r =>
      match skipBlank r with
      | ']' :: r => some (.array [], r)
      | r => items? fuel [] r
    | '{' :: r =>
      match skipBlank r with
      | '}' :: r => some (.object [], r)
      | r => entries? fuel [] r
    | '-' :: r => (number? true r).map fun (n, r) => (.number n, r)
    | c :: r =>
      if c.isDigit then (number? false (c :: r)).map fun (n, r) => (.number n, r)
      else if c == 't' then keyword? ['t', 'r', 'u', 'e'] (.bool true) (c :: r)
      else if c == 'f' then keyword? ['f', 'a', 'l', 's', 'e'] (.bool false) (c :: r)
      else if c == 'n' then keyword? ['n', 'u', 'l', 'l'] .null (c :: r)
      else none
    | [] => none

def items? : Nat → List Json → List Char → Option (Json × List Char)
  | 0, _, _ => none
  | fuel + 1, acc, cs =>
    match value? fuel cs with
    | some (v, r) =>
      match skipBlank r with
      | ',' :: r => items? fuel (v :: acc) r
      | ']' :: r => some (.array (v :: acc).reverse, r)
      | _ => none
    | none => none

def entries? : Nat → List (Option String × Json) → List Char → Option (Json × List Char)
  | 0, _, _ => none
  | fuel + 1, acc, cs =>
    match skipBlank cs with
    | '"' :: r =>
      match string? r with
      | some (key, r) =>
        match skipBlank r with
        | ':' :: r =>
          match value? fuel r with
          | some (v, r) =>
            match skipBlank r with
            | ',' :: r => entries? fuel ((key, v) :: acc) r
            | '}' :: r => some (.object ((key, v) :: acc).reverse, r)
            | _ => none
          | none => none
        | _ => none
      | none => none
    | _ => none

end

end JsonReader

/-- The value that a text consists of, with nothing but blanks around it. -/
def Json.parse? (text : String) : Option Json :=
  let cs := text.toList
  match JsonReader.value? (2 * cs.length + 2) cs with
  | some (v, rest) => if (JsonReader.skipBlank rest).isEmpty then some v else none
  | none => none

end Marginalia
