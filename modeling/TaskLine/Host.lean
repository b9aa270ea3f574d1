import TaskLine.Attempt
import TaskLine.Selection
import TaskLine.Text.Basic

/-!
# Hosts

A host is an editor or a document that lines are read from and written to. All
it can do is optional: a host that lacks an ability leaves it out, and whoever
uses the host looks first. A host is given by functions on its state, so that
the same formatter serves a list of lines and a text buffer.
-/

namespace TaskLine

/-- What can go wrong while lines are formatted. -/
inductive RunFault where
  /-- The host has no way to tell its current line. -/
  | noCurrentLine
  /-- The host failed, with a message of its own. -/
  | failed (message : Text)
deriving DecidableEq, Repr

def RunFault.message : RunFault → Text
  | .noCurrentLine => "'NoneType' object is not callable".toList
  | .failed s => s

/-- The line that the cursor is on. -/
structure CurrentLine where
  text : Text
  number : Nat
  selection : Option Selection := none
deriving DecidableEq, Repr

/-- What a host can do. -/
inductive Ability where
  | currentLine
  | lineAt
  | replaceLine
  | replaceSelecting
  | replaceAll
  | allLines
  | cursorLine
  | progressStart
  | progressUpdate
  | progressEnd
  | lineCommitted
  | cursorLineChanged
  | leafChanged
deriving DecidableEq, Repr

/-- What the user does in a host, as far as it can be listened to. -/
inductive HostEvent where
  | lineCommitted
  | cursorLineChanged
  | leafChanged
deriving DecidableEq, Repr

/-- What a listener is told. -/
inductive Notice where
  | lineCommitted
  /-- The cursor went from one line to another. -/
  | cursorLineChanged (previous next : Nat)
  | leafChanged
deriving DecidableEq, Repr

def Notice.event : Notice → HostEvent
  | .lineCommitted => .lineCommitted
  | .cursorLineChanged _ _ => .cursorLineChanged
  | .leafChanged => .leafChanged

/-- The ability to report an event. -/
def HostEvent.ability : HostEvent → Ability
  | .lineCommitted => .lineCommitted
  | .cursorLineChanged => .cursorLineChanged
  | .leafChanged => .leafChanged

/-- What the formatter uses of a host. Lines are counted from zero. -/
structure Host (σ : Type) where
  currentLine? : Option (σ → Option CurrentLine) := none
  lineAt? : Option (Int → σ → Option Text) := none
  replaceLine? : Option (Int → Text → σ → Attempt RunFault σ Unit) := none
  replaceSelecting? : Option (Int → Text → Selection → σ → Attempt RunFault σ Unit) := none
  replaceAll? : Option (List Text → σ → Attempt RunFault σ Unit) := none
  progressStart? : Option (Text → Nat → σ → σ) := none
  progressUpdate? : Option (Nat → Nat → σ → σ) := none
  progressEnd? : Option (σ → σ) := none

namespace Host

variable {σ τ : Type}

/-- A host that is a part of a larger state. -/
def within (get : τ → σ) (put : σ → τ → τ) (h : Host σ) : Host τ :=
  let attempt := fun (r : Attempt RunFault σ Unit) (t : τ) =>
    (⟨r.result, put r.state t⟩ : Attempt RunFault τ Unit)
  { currentLine? := h.currentLine?.map fun f t => f (get t)
    lineAt? := h.lineAt?.map fun f n t => f n (get t)
    replaceLine? := h.replaceLine?.map fun f n line t => attempt (f n line (get t)) t
    replaceSelecting? :=
      h.replaceSelecting?.map fun f n line sel t => attempt (f n line sel (get t)) t
    replaceAll? := h.replaceAll?.map fun f lines t => attempt (f lines (get t)) t
    progressStart? := h.progressStart?.map fun f title total t => put (f title total (get t)) t
    progressUpdate? :=
      h.progressUpdate?.map fun f current total t => put (f current total (get t)) t
    progressEnd? := h.progressEnd?.map fun f t => put (f (get t)) t }

/-- A host that lacks some abilities. Telling the current line needs the ability
to look up a line. -/
def without (lacks : Ability → Bool) (h : Host σ) : Host σ :=
  { currentLine? := if lacks .currentLine || lacks .lineAt then none else h.currentLine?
    lineAt? := if lacks .lineAt then none else h.lineAt?
    replaceLine? := if lacks .replaceLine then none else h.replaceLine?
    replaceSelecting? := if lacks .replaceSelecting then none else h.replaceSelecting?
    replaceAll? := if lacks .replaceAll then none else h.replaceAll?
    progressStart? := if lacks .progressStart then none else h.progressStart?
    progressUpdate? := if lacks .progressUpdate then none else h.progressUpdate?
    progressEnd? := if lacks .progressEnd then none else h.progressEnd? }

end Host

end TaskLine
