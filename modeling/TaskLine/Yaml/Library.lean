import TaskLine.Yaml.Writer

/-!
# Libraries of documents

The configuration is a document that a library reads and writes. Such a library is a pair of
functions: what a text says, and the text of a document. Which one it is does not matter to the rest
of the program; `library` is one to run it with.
-/

namespace TaskLine.Yaml

/-- Why a library cannot write a document. -/
inductive DumpFault where
  /-- There is no text for a value in it. -/
  | value (message : Text)
  | other (message : Text)
deriving DecidableEq, Repr

def DumpFault.message : DumpFault → Text
  | .value m => m
  | .other m => m

/-- A library that reads and writes documents. -/
structure Library where
  /-- What a text says; nothing if it cannot be read. -/
  load : Text → Option Document
  /-- The text of a document. -/
  dump : Document → Except DumpFault Text

/-- A library to run the program with. A whole number with too many digits has no text. How deep a
document may go is another matter with each library; this one reads documents up to a fixed depth
and writes them whatever theirs is. -/
def library : Library where
  load := Document.ofText?
  dump d :=
    if d.root.exceedsDigits d.objects then .error (.value (Text.tooManyDigits none))
    else .ok d.text

end TaskLine.Yaml
