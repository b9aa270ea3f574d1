import TaskLine.Text.Quoted

/-!
# Requests for formatting

Formatting is asked for with a reason, a scope and sometimes the number of a
line. Whether a reason is heard depends on three switches: a master switch, one
for reasons that concern single lines and one for leaving a file. A request made
by hand needs the master switch only.
-/

namespace TaskLine

/-- Why formatting is asked for. -/
inductive Reason where
  | commit
  | cursorMove
  | leafOrFile
  | manual
deriving DecidableEq, Repr

/-- What is to be formatted. -/
inductive Scope where
  | line
  | cursor
  | file
deriving DecidableEq, Repr

/-- The switches of the automation. -/
structure Flags where
  master : Bool := true
  onLineCommit : Bool := true
  onLeafChange : Bool := true
deriving DecidableEq, Repr

namespace Reason

def name : Reason → Text
  | .commit => "commit".toList
  | .cursorMove => "cursor-move".toList
  | .leafOrFile => "leaf-or-file".toList
  | .manual => "manual".toList

def all : List Reason := [.commit, .cursorMove, .leafOrFile, .manual]

def ofName? (s : Text) : Option Reason := all.find? fun r => r.name = s

/-- The scope of a request that names none. -/
def defaultScope : Reason → Scope
  | .leafOrFile => .file
  | .commit | .cursorMove | .manual => .line

end Reason

namespace Scope

def name : Scope → Text
  | .line => "line".toList
  | .cursor => "cursor".toList
  | .file => "file".toList

def all : List Scope := [.line, .cursor, .file]

def ofName? (s : Text) : Option Scope := all.find? fun r => r.name = s

end Scope

namespace Flags

/-- Every switch off. -/
def off : Flags := ⟨false, false, false⟩

/-- Whether a request is let through for its reason. -/
def allows (f : Flags) : Reason → Bool
  | .commit | .cursorMove => f.master && f.onLineCommit
  | .leafOrFile => f.master && f.onLeafChange
  | .manual => f.master

/-- Whether a named reason is let through; a name that is no reason needs the
master switch only. -/
def allowsNamed (f : Flags) (name : Text) : Bool :=
  match Reason.ofName? name with
  | some r => f.allows r
  | none => f.master

end Flags

/-- A request for formatting. -/
structure Request where
  reason : Reason
  scope : Scope
  /-- The line to format instead of the current one. -/
  target : Option Int := none
deriving DecidableEq, Repr

/-- Why a request cannot be understood. -/
inductive RequestFault where
  | unknownReason (name : Text)
  | unknownScope (name : Text)
deriving DecidableEq, Repr

def RequestFault.message : RequestFault → Text
  | .unknownReason s => "Unknown trigger reason: ".toList ++ Text.quoted s
  | .unknownScope s => "Unknown trigger scope: ".toList ++ Text.quoted s

/-- The request with the given names. A missing or empty scope is the default one
of the reason. -/
def Request.read (reason : Text) (scope : Option Text) (target : Option Int) :
    Except RequestFault Request :=
  match Reason.ofName? reason with
  | none => .error (.unknownReason reason)
  | some r =>
    if scope.getD [] = [] then .ok ⟨r, r.defaultScope, target⟩
    else
      match Scope.ofName? (scope.getD []) with
      | none => .error (.unknownScope (scope.getD []))
      | some s => .ok ⟨r, s, target⟩

end TaskLine
