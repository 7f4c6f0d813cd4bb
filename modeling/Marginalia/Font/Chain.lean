import Marginalia.Document.Error
import Marginalia.Font.Source
import Marginalia.Mark.Basic

/-!
Which font a text is written with: the one asked for if it can show the text, then the fallback for
CJK text, and last the universal one, which shows whatever is left with substitutes.
-/

namespace Marginalia

structure FontChain where
  candidates : List FontSource
  cjkFallback : String
  universalFallback : String
deriving DecidableEq, Repr

namespace FontChain

def default : FontChain where
  candidates := [
    .standard "Helvetica" "Helvetica" "Helvetica-Bold",
    .standard "Arial" "Helvetica" "Helvetica-Bold",
    .standard "Times" "Times-Roman" "Times-Bold",
    .standard "Times New Roman" "Times-Roman" "Times-Bold",
    .standard "Courier" "Courier" "Courier-Bold",
    .standard "Courier New" "Courier" "Courier-Bold",
    .cjk Mark.defaultFontFamily "HYGoThic-Medium" "Korea1" 2 "UniKS-UCS2-H"]
  cjkFallback := Mark.defaultFontFamily
  universalFallback := "Helvetica"

/-- Whether two names are equal up to the case of ASCII letters. -/
def sameName (a b : List Char) : Bool :=
  a.map Char.toLower == b.map Char.toLower

/-- The first candidate of a family, whose name may have white space around it. -/
def find? (chain : FontChain) (family : String) : Option FontSource :=
  let name := Unicode.trimChars family.toList
  chain.candidates.find? fun c => sameName c.family.toList name

/-- The candidate of a family, if it can show the text. -/
def findFor? (chain : FontChain) (family text : String) : Option FontSource :=
  (chain.find? family).filter fun source => source.supports text

def resolve (chain : FontChain) (family text : String) : Except DocumentError FontSource :=
  match chain.findFor? family text with
  | some source => .ok source
  | none =>
    match chain.findFor? chain.cjkFallback text with
    | some source => .ok source
    | none =>
      match chain.find? chain.universalFallback with
      | some source => .ok source
      | none =>
        .error (.fontUnavailable (family ++ " (fallbacks " ++ chain.cjkFallback ++ " and " ++
          chain.universalFallback ++ " are not configured)"))

end FontChain

end Marginalia
