import Marginalia.Text.Blank
import Marginalia.Text.CaseTable

/-!
Full lower case. All but two characters map on their own; a capital sigma takes its final form at the
end of a word, which the characters on both sides decide.
-/

namespace Marginalia

namespace Unicode

def isCased (c : Char) : Bool := inRanges cased c.toNat

def isCaseIgnorable (c : Char) : Bool := inRanges caseIgnorable c.toNat

/-- The lower-case form of a single character, which is itself if it has none. -/
def lowerChar (c : Char) : Char :=
  let n := c.toNat
  if n < 0x80 then c.toLower
  else
    match lowerRuns.find? fun (first, last, stride, _) =>
        first ≤ n && n ≤ last && (n - first) % stride == 0 with
    | some (_, _, _, delta) => Char.ofNat ((n : Int) + delta).toNat
    | none => c

/-- Whether the next character that is not passed over has case. -/
def casedAhead : List Char → Bool
  | [] => false
  | c :: cs => if isCaseIgnorable c then casedAhead cs else isCased c

/-- Lower case of a text whose earlier characters, latest first, are `before`. -/
def lowerFrom (before : List Char) : List Char → List Char
  | [] => []
  | c :: cs =>
    let mapped : List Char :=
      if c == '\u03A3' then
        [if casedAhead before && !casedAhead cs then '\u03C2' else '\u03C3']
      else if c == '\u0130' then ['i', '\u0307']
      else [lowerChar c]
    mapped ++ lowerFrom (c :: before) cs

def lowerChars (cs : List Char) : List Char := lowerFrom [] cs

def lower (s : String) : String := String.ofList (lowerChars s.toList)

end Unicode

/-- Whether one list occurs in another without a gap. -/
def containsRow {β : Type} [BEq β] (part : List β) : List β → Bool
  | [] => part.isEmpty
  | c :: cs => part.isPrefixOf (c :: cs) || containsRow part cs

end Marginalia
