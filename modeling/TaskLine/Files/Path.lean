import TaskLine.Text.Basic

/-!
# Paths

A path is a root and the names below it. Repeated slashes, a slash at the end and
names that are a single dot do not count; two dots stay as they are. The path
without any name is written as a dot.
-/

namespace TaskLine

/-- A path. -/
structure Path where
  /-- Empty for a relative path; one slash, or two where exactly two were written,
  for an absolute one. -/
  root : Text := []
  names : List Text
deriving DecidableEq, Repr

namespace Path

/-- The root of a written path. -/
def rootOf (s : Text) : Text :=
  match (s.takeWhile (· = '/')).length with
  | 0 => []
  | 2 => ['/', '/']
  | _ => ['/']

/-- Read a path. -/
def ofText (s : Text) : Path :=
  { root := rootOf s
    names := (Text.splitOn '/' s).filter fun n => n != [] && n != ['.'] }

def toText (p : Path) : Text :=
  if p.root = [] && p.names.isEmpty then ['.'] else p.root ++ Text.join ['/'] p.names

/-- The last name, or nothing. -/
def name (p : Path) : Text := p.names.getLast?.getD []

/-- The path of the directory. -/
def parent (p : Path) : Path := { p with names := p.names.dropLast }

/-- Whether a name holds the character U+0000, which no file can have in its name. -/
def hasNull (p : Path) : Bool := p.names.any fun n => n.contains '\x00'

end Path

end TaskLine
