import Marginalia.Filter.Decode

/-!
What can go wrong with a file and with the document in it, and the words for it.
-/

namespace Marginalia

/-- Why no document can be made out of a file. -/
inductive FileFault where
  | noHeader
  | noTrailer
  | badReferences
  | badStart
  | badPrevious
  | badHybrid
  | outside
  | badObject (position : Nat)
  | shortReferences
  | referenceData (error : DecodeError)
deriving DecidableEq, Repr

namespace FileFault

def message : FileFault → String
  | noHeader => "couldn't parse input: invalid file header"
  | noTrailer => "couldn't parse input: invalid file trailer"
  | badReferences => "couldn't parse input: invalid cross reference table"
  | badStart => "failed parsing cross reference table: invalid start value"
  | badPrevious => "failed parsing cross reference table: invalid start value in Prev field"
  | badHybrid => "failed parsing cross reference table: invalid start value of XRefStm"
  | outside => "invalid byte offset"
  | badObject position => "invalid indirect object at byte offset " ++ toString position
  | shortReferences => DecodeError.shortData
  | referenceData error => error.message

end FileFault

inductive DocumentError where
  | parse (detail : String)
  | encrypted
  | pageOutOfRange (page count : Nat)
  | fontUnavailable (detail : String)
  | save (detail : String)
  | ocr (detail : String)
deriving DecidableEq, Repr

namespace DocumentError

def message : DocumentError → String
  | parse detail => "PDF parsing error: " ++ detail
  | encrypted => "Document is encrypted"
  | pageOutOfRange page count =>
    "Page " ++ toString page ++ " is out of range (document has " ++ toString count ++ " pages)"
  | fontUnavailable detail => "No usable font for " ++ detail
  | save detail => "Failed to save document: " ++ detail
  | ocr detail => "OCR failed: " ++ detail

end DocumentError

end Marginalia
