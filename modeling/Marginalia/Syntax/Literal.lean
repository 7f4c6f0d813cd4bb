import Marginalia.Syntax.Byte

/-!
Literal strings: balanced parentheses, and the escapes behind a backslash. The state of a string
under way is a value, and each byte either extends it or finishes the string.
-/

namespace Marginalia

/-- Where a literal string stands with respect to a backslash. -/
inductive Escape where
  | plain
  | backslash
  | octal (value : Nat) (digits : Nat)
  | lineBreak

/-- A literal string under way: open parentheses inside it, and its bytes in reverse. -/
structure Literal where
  depth : Nat
  escape : Escape
  bytes : Bytes

namespace Literal

def push (s : Literal) (c : UInt8) : Literal :=
  { s with escape := .plain, bytes := c :: s.bytes }

/-- A byte outside any escape; `inr` is the finished string. -/
def plainByte (s : Literal) (c : UInt8) : Literal ⊕ Bytes :=
  if c == 0x28 then .inl { s.push c with depth := s.depth + 1 }
  else if c == 0x29 then
    if s.depth = 0 then .inr s.bytes.reverse else .inl { s.push c with depth := s.depth - 1 }
  else if c == 0x5C then .inl { s with escape := .backslash }
  else .inl (s.push c)

/-- The byte that a backslash and this byte stand for. -/
def escaped (c : UInt8) : UInt8 :=
  if c == 0x6E then 10
  else if c == 0x72 then 13
  else if c == 0x74 then 9
  else if c == 0x62 then 8
  else if c == 0x66 then 12
  else c

def next (s : Literal) (c : UInt8) : Literal ⊕ Bytes :=
  match s.escape with
  | .plain => s.plainByte c
  | .backslash =>
    match Syntax.octalValue? c with
    | some d => .inl { s with escape := .octal d.toNat 1 }
    | none =>
      if c == 13 then .inl { s with escape := .lineBreak }
      else if c == 10 then .inl { s with escape := .plain }
      else .inl (s.push (escaped c))
  | .octal value digits =>
    match Syntax.octalValue? c with
    | some d =>
      if digits < 3 then .inl { s with escape := .octal (value * 8 + d.toNat) (digits + 1) }
      else (s.push (UInt8.ofNat value)).plainByte c
    | none => (s.push (UInt8.ofNat value)).plainByte c
  | .lineBreak =>
    if c == 10 then .inl { s with escape := .plain } else { s with escape := .plain }.plainByte c

end Literal

namespace Literal

def empty : Literal := ⟨0, .plain, []⟩

/-- Reads the rest of a string behind its opening parenthesis, unless it nests too deep. -/
def read? (maxDepth : Nat) (s : Literal) : Bytes → Option (Bytes × Bytes)
  | [] => none
  | c :: cs =>
    match s.next c with
    | .inl s => if maxDepth < s.depth then none else read? maxDepth s cs
    | .inr bytes => some (bytes, cs)

end Literal

end Marginalia
