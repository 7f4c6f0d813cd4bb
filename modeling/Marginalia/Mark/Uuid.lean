import Marginalia.Syntax.Byte

/-!
Identifiers of annotations: 128 bits, written as groups of hexadecimal digits.
-/

namespace Marginalia

/-- A 128-bit identifier as its 32 hexadecimal digit values. -/
structure Uuid where
  digits : List (Fin 16)
  length_digits : digits.length = 32
deriving DecidableEq, Repr

namespace Uuid

def digit? (c : Char) : Option (Fin 16) :=
  if c.isDigit then some (Fin.ofNat 16 (c.toNat - 48))
  else if 'a' ≤ c && c ≤ 'f' then some (Fin.ofNat 16 (c.toNat - 87))
  else if 'A' ≤ c && c ≤ 'F' then some (Fin.ofNat 16 (c.toNat - 55))
  else none

def digitChar (d : Fin 16) : Char :=
  if d.val < 10 then Char.ofNat (48 + d.val) else Char.ofNat (87 + d.val)

/-- The identifier of some digits, if there are thirty-two. -/
def ofDigits? (digits : List (Fin 16)) : Option Uuid :=
  if h : digits.length = 32 then some ⟨digits, h⟩ else none

/-- Thirty-two digits in a row. -/
def simple? (cs : List Char) : Option Uuid :=
  (cs.mapM digit?).bind ofDigits?

/-- Groups of 8, 4, 4, 4 and 12 digits with hyphens between them. -/
def hyphenated? (cs : List Char) : Option Uuid :=
  if cs.length = 36 && [8, 13, 18, 23].all (fun i => cs[i]? == some '-') then
    simple? (cs.filter (· ≠ '-'))
  else none

/-- The text in front of the digits of an identifier that is a name. -/
def urn : List Char := "urn:uuid:".toList

/-- Reads the plain, hyphenated, braced and named forms. -/
def parse? (cs : List Char) : Option Uuid :=
  match cs.length with
  | 32 => simple? cs
  | 36 => hyphenated? cs
  | 38 =>
    if cs.head? == some '\x7b' && cs.getLast? == some '\x7d' then
      hyphenated? ((cs.drop 1).take 36)
    else none
  | 45 => if urn.isPrefixOf cs then hyphenated? (cs.drop 9) else none
  | _ => none

/-- An identifier from 16 random bytes, marked as a random one: the 13th digit is 4, and the 17th one of
8, 9, a and b. -/
def ofRandom (bytes : Bytes) : Uuid :=
  let random := bytes.flatMap fun b => [Fin.ofNat 16 (b.toNat / 16), Fin.ofNat 16 b.toNat]
  let digits := (random ++ List.replicate 32 0).take 32
  ⟨(digits.set 12 4).modify 16 fun d => Fin.ofNat 16 (8 + d.val % 4), by simp [digits]⟩

/-- The hyphenated form in lower case. -/
def text (u : Uuid) : String :=
  let cs := u.digits.map digitChar
  String.ofList (cs.take 8 ++ ['-'] ++ (cs.drop 8).take 4 ++ ['-'] ++ (cs.drop 12).take 4 ++ ['-'] ++
    (cs.drop 16).take 4 ++ ['-'] ++ cs.drop 20)

end Uuid

/-- The identifier of an annotation. One that came without is given one at random when it leaves the
program; until then it is pending. -/
inductive MarkId where
  | known (u : Uuid)
  | pending
deriving DecidableEq, Repr

namespace MarkId

/-- What stands for an identifier that is still to be drawn. -/
def pendingText : String := "<new-uuid>"

def text : MarkId → String
  | known u => u.text
  | pending => pendingText

end MarkId

end Marginalia
