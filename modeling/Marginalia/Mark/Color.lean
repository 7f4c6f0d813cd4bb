import Marginalia.Number.Scalar
import Marginalia.Text.Quoted

/-!
Colours of three bytes, as `#RRGGBB` and as parts of one.
-/

namespace Marginalia

structure Color where
  red : UInt8
  green : UInt8
  blue : UInt8
deriving DecidableEq, Repr, Inhabited

namespace Color

def black : Color := ⟨0, 0, 0⟩

def yellow : Color := ⟨255, 255, 0⟩

def red_ : Color := ⟨255, 0, 0⟩

def hexValue? (c : Char) : Option Nat :=
  if c.isDigit then some (c.toNat - 48)
  else if 'a' ≤ c && c ≤ 'f' then some (c.toNat - 87)
  else if 'A' ≤ c && c ≤ 'F' then some (c.toNat - 55)
  else none

/-- A channel: two hexadecimal digits, of which the first may be a plus sign. -/
def channel? (high low : Char) : Option UInt8 := do
  let h ← if high == '+' then some 0 else hexValue? high
  let l ← hexValue? low
  return UInt8.ofNat (h * 16 + l)

/-- The three channels of six characters. -/
def ofDigits? : List Char → Option Color
  | [r₁, r₂, g₁, g₂, b₁, b₂] => do
    return ⟨← channel? r₁ r₂, ← channel? g₁ g₂, ← channel? b₁ b₂⟩
  | _ => none

/-- Reads six digits, or eight of which the first two are dropped, behind any number of `#`. -/
def parse? (s : String) : Option Color :=
  let cs := (Unicode.trimChars s.toList).dropWhile (· == '#')
  if !cs.all (fun c => c.toNat < 0x80) then none
  else if cs.length = 8 then ofDigits? (cs.drop 2)
  else ofDigits? cs

/-- What a text that is no colour is told. -/
def invalidMessage (s : String) : String :=
  "Invalid colour " ++ Quoted.render s ++ " (expected '#RRGGBB' or '#AARRGGBB')"

def hexDigit (n : Nat) : Char :=
  if n < 10 then Char.ofNat (48 + n) else Char.ofNat (55 + n)

def hexPair (b : UInt8) : List Char :=
  [hexDigit (b.toNat / 16), hexDigit (b.toNat % 16)]

/-- The colour as `#RRGGBB` in upper case. -/
def text (c : Color) : String :=
  String.ofList ('#' :: hexPair c.red ++ hexPair c.green ++ hexPair c.blue)

variable {α : Type} [Scalar α]

/-- The byte of a part of one; what lies outside is taken to the nearer end. -/
def byteOfUnit (v : α) : UInt8 :=
  let clamped := if v < Scalar.zero then Scalar.zero else if Scalar.one < v then Scalar.one else v
  UInt8.ofNat ((Scalar.exact (clamped * ((255 : Nat) : α))).roundWithin 0 255).toNat

def ofUnits (r g b : α) : Color := ⟨byteOfUnit r, byteOfUnit g, byteOfUnit b⟩

def unitOfByte (b : UInt8) : α := (b.toNat : α) / ((255 : Nat) : α)

/-- The three channels as parts of one. -/
def units (c : Color) : List α := [unitOfByte c.red, unitOfByte c.green, unitOfByte c.blue]

end Color

end Marginalia
