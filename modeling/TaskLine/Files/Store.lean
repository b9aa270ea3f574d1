import TaskLine.Attempt
import TaskLine.Files.Fault
import TaskLine.Files.Path

/-!
# Files

A directory with files and further directories in it. Relative paths start
there. A file holds a text, or bytes that cannot be read as one. Names and paths
have a limited number of bytes; whether a name keeps to it is not asked before the
directory that it would be in is there.
-/

namespace TaskLine

/-- What a file holds. -/
inductive Content where
  | text (s : Text)
  /-- Bytes that are no text, and what is wrong with them. -/
  | broken (bytes : List Nat) (fault : Utf8.Fault)
deriving DecidableEq, Repr

/-- What a file of some bytes holds. -/
def Content.ofBytes (bytes : List Nat) : Content :=
  match Utf8.decode bytes with
  | .ok s => .text s
  | .error f => .broken bytes f

/-- A directory and all that is in it, by the names that lead there. -/
structure Files where
  /-- How the directory itself is written in absolute paths; empty for the root. -/
  base : Text := []
  /-- The names that lead to where relative paths start. -/
  here : List Text := []
  files : List (List Text × Content) := []
  directories : List (List Text) := []
deriving Repr

/-- What is found at a path. -/
inductive Found where
  | file (content : Content)
  | directory
  | nothing
  /-- The path cannot be followed: it is too long, or a name in it. -/
  | tooLong
deriving DecidableEq, Repr

namespace Files

/-! ## Looking -/

/-- The most bytes that a name may have. -/
def nameLimit : Nat := 255

/-- The most bytes that a written path may have. -/
def pathLimit : Nat := 4095

def isTooLong (name : Text) : Bool := nameLimit < Utf8.byteCount name

/-- Whether names lead to a directory. -/
def hasDirectory (fs : Files) (names : List Text) : Bool :=
  names.isEmpty || fs.directories.contains names

/-- What is found under names that have no double dots in them. -/
def look (fs : Files) (names : List Text) : Found :=
  match fs.files.find? fun f => f.1 = names with
  | some f => .file f.2
  | none => if fs.hasDirectory names then .directory else .nothing

/-- What is found by following names from somewhere above the directory. All that is
known of what lies there is that it consists of directories. -/
def lookAbove (names : List Text) : Found :=
  match names.dropWhile (· = ['.', '.']) with
  | [] => .directory
  | n :: _ => if isTooLong n then .tooLong else .nothing

/-- What is found by following names from a directory; double dots lead back. -/
def follow (fs : Files) (start : List Text) : List Text → Found
  | [] => fs.look start
  | n :: ns =>
    if !fs.hasDirectory start then .nothing
    else if isTooLong n then .tooLong
    else if n ≠ ['.', '.'] then fs.follow (start ++ [n]) ns
    else if !start.isEmpty || fs.base.isEmpty then fs.follow start.dropLast ns
    else lookAbove ns

/-- The names that lead to where a path starts. An absolute path starts at the
root, and leads nowhere if that is not known. -/
def start? (fs : Files) (p : Path) : Option (List Text) :=
  if p.root.isEmpty then some fs.here else if fs.base.isEmpty then some [] else none

/-- What is found at a path. -/
def find (fs : Files) (p : Path) : Found :=
  if p.hasNull then .nothing
  else if pathLimit < Utf8.byteCount p.toText then .tooLong
  else
    match fs.start? p with
    | some names => fs.follow names p.names
    | none => lookAbove p.names

/-- Whether there is anything at a path. -/
def has (fs : Files) (p : Path) : Except FileFault Bool :=
  match fs.find p with
  | .nothing => .ok false
  | .tooLong => .error (.tooLong p.toText)
  | .file _ | .directory => .ok true

def hasFile (fs : Files) (p : Path) : Except FileFault Bool :=
  match fs.find p with
  | .file _ => .ok true
  | .tooLong => .error (.tooLong p.toText)
  | .nothing | .directory => .ok false

/-- The text of a file. -/
def read (fs : Files) (p : Path) : Except FileFault Text :=
  match fs.find p with
  | .file (.text s) => .ok s
  | .file (.broken _ f) => .error (.undecodable f)
  | .directory => .error (.isDirectory p.toText)
  | .nothing => .error (.missing p.toText)
  | .tooLong => .error (.tooLong p.toText)

/-! ## Changing -/

/-- Leave out double dots together with the names before them. -/
def resolved (names : List Text) : List Text :=
  names.foldl (fun done n => if n = ['.', '.'] then done.dropLast else done ++ [n]) []

/-- The names that a path leads to, double dots left out. -/
def namesOf (fs : Files) (p : Path) : List Text :=
  resolved ((fs.start? p).getD [] ++ p.names)

/-- Put a content under names. -/
def put (fs : Files) (names : List Text) (c : Content) : Files :=
  { fs with files := (names, c) :: fs.files.filter fun f => f.1 != names }

/-- Make the directories that names lead through, from a directory on. `shown` says
how names are written in messages, and `passed` are the names passed before. A fault
that is met before anything had to be made is one of the whole path. -/
def makeDirectories (shown : List Text → Text) (fs : Files) (start passed : List Text)
    (made : Bool) : List Text → Attempt FileFault Files Unit
  | [] => .done fs
  | n :: ns =>
    let passed := passed ++ [n]
    let next := if n = ['.', '.'] then start.dropLast else start ++ [n]
    if isTooLong n then ⟨.error (.tooLong (shown (if made then passed else passed ++ ns))), fs⟩
    else
      match fs.look next with
      | .nothing =>
        makeDirectories shown { fs with directories := next :: fs.directories } next passed true ns
      | .file _ =>
        if made || ns.isEmpty then ⟨.error (.occupied (shown passed)), fs⟩
        else ⟨.error (.notDirectory (shown (passed ++ ns))), fs⟩
      | .directory | .tooLong => makeDirectories shown fs next passed made ns

/-- How names are written as a path with a given root. -/
def shownFrom (root : Text) (names : List Text) : Text := (Path.mk root names).toText

/-- Make the directories that lead to a path. -/
def makeParents (fs : Files) (p : Path) : Attempt FileFault Files Unit :=
  let p := p.parent
  if p.hasNull then ⟨.error .nullCharacter, fs⟩
  else makeDirectories (shownFrom p.root) fs ((fs.start? p).getD []) [] false p.names

/-- Write a text to the file that names lead to; the directory is there. -/
def writeAt (shown : Text) (fs : Files) (names : List Text) (s : Text) :
    Attempt FileFault Files Unit :=
  if isTooLong (names.getLast?.getD []) then ⟨.error (.tooLong shown), fs⟩
  else
    match fs.look names with
    | .directory => ⟨.error (.isDirectory shown), fs⟩
    | _ => .done (fs.put names (.text s))

/-- Write a text to a file in a directory that is there. Messages name the file as the
path does. -/
def write (fs : Files) (p : Path) (s : Text) : Attempt FileFault Files Unit :=
  if p.hasNull then ⟨.error .nullCharacter, fs⟩
  else writeAt p.toText fs (fs.namesOf p) s

/-- How names are written as an absolute path. -/
def absolute (fs : Files) (names : List Text) : Text := Text.join ['/'] (fs.base :: names)

/-- Whether the absolute path of names is one that can be followed. -/
def fits (fs : Files) (names : List Text) : Bool := Utf8.byteCount (fs.absolute names) ≤ pathLimit

/-- The name of the draft of a file. Its middle is drawn at random; one draw is as
long as any other. -/
def draftName (name : Text) : Text := '.' :: name ++ ".________.tmp".toList

/-- The names that lead to the draft of the file that names lead to. -/
def draft (names : List Text) : List Text :=
  names.dropLast ++ [draftName (names.getLast?.getD [])]

/-- Write a text to a file, with the directories that lead there. Double dots are
left out first, and messages name the file by its absolute path. A draft is written
beside the file and then takes its place, so the draft has to have a name as well. -/
def replace (fs : Files) (p : Path) (s : Text) : Attempt FileFault Files Unit :=
  let names := fs.namesOf p
  if p.hasNull then ⟨.error .nullCharacter, fs⟩
  else if !fs.fits names.dropLast then ⟨.error (.tooLong (fs.absolute names.dropLast)), fs⟩
  else
    (makeDirectories fs.absolute fs [] [] false names.dropLast).andThen fun _ fs' =>
      if isTooLong (draftName (names.getLast?.getD [])) || !fs.fits (draft names) then
        ⟨.error (.tooLong (fs.absolute (draft names))), fs'⟩
      else writeAt (fs.absolute names) fs' names s

/-- Remove a file, if it is there. -/
def remove (fs : Files) (p : Path) : Attempt FileFault Files Unit :=
  match fs.find p with
  | .nothing => .done fs
  | .directory => ⟨.error (.isDirectory p.toText), fs⟩
  | .tooLong => ⟨.error (.tooLong p.toText), fs⟩
  | .file _ =>
    let names := fs.namesOf p
    .done { fs with files := fs.files.filter fun f => f.1 != names }

/-- Every directory that names lead through, the first one first. -/
def onTheWay (names : List Text) : List (List Text) :=
  (List.range names.length).map fun i => names.take (i + 1)

/-- A directory with the given contents; those without a content are directories
themselves. -/
def ofContents (base : Text) (contents : List (Text × Option Content)) : Files :=
  contents.foldl (fun fs c =>
    let names := (Path.ofText c.1).names
    let fs := { fs with directories := onTheWay names.dropLast ++ fs.directories }
    match c.2 with
    | some content => fs.put names content
    | none => { fs with directories := names :: fs.directories }) { base := base }

end Files

end TaskLine
