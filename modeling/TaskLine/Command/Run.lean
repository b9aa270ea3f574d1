import TaskLine.Command.Basic
import TaskLine.Document
import TaskLine.Envelope
import TaskLine.Formatter.File
import TaskLine.Formatter.Line
import TaskLine.Markdown
import TaskLine.Settings.Store

/-!
# Running commands

A command works on files and prints an envelope that says what came of it. Files
are read as Markdown and written back with their own line breaks, and only when a
line changed.
-/

namespace TaskLine

/-- What a command finds around it. -/
structure Surroundings where
  files : Files
  /-- The home directories by user, see `Path.expand`. -/
  homes : List (Text × Text) := []
  /-- Where the configuration is. -/
  configPath : Except FileFault Path
  /-- The instance id that new wrappers get. -/
  instanceId : Text
  timestamp : Text
  /-- What the configuration is read and written with. -/
  yaml : Yaml.Library := Yaml.library

/-- What a command prints. -/
inductive Printed where
  | help
  | text (s : Text)
deriving DecidableEq, Repr

/-- How a command ends. -/
inductive Ending where
  | exit (code : Nat) (printed : Printed)
  /-- The file is to be edited. -/
  | edit (path : Path)
  /-- A setting cannot be read or shown. -/
  | settingFailed (fault : SettingFault)
  /-- A file cannot be looked for or written. -/
  | fileFailed (fault : FileFault)
deriving DecidableEq, Repr

/-- How a command ended, and the files that it left. -/
structure CommandResult where
  ending : Ending
  files : Files

/-- The version of the program. -/
def version : Text := "0.1.0".toList

namespace Surroundings

/-! ## Answers -/

/-- End with an envelope. -/
def answer (s : Surroundings) (command status message : Text) (payload : List (Text × Json))
    (code : Nat) : CommandResult :=
  let e : Envelope :=
    { command := .text command, status := .text status, message := .text message
      timestamp := some s.timestamp, payload := .object payload }
  ⟨.exit code (.text e.text), s.files⟩

def ok (s : Surroundings) (command message : Text) (payload : List (Text × Json)) :
    CommandResult :=
  s.answer command "OK".toList message payload 0

def error (s : Surroundings) (command message : Text) (payload : List (Text × Json)) :
    CommandResult :=
  s.answer command "ERROR".toList message payload 1

/-- A member of a payload. -/
def member (name : String) (v : Json) : Text × Json := (name.toList, v)

/-! ## Lines and files -/

/-- The formatter of a document. Its clock stands still, so that progress never
shows. -/
def formatter : Formatter Document :=
  { host := Document.host, clock := fun d => (.finite 0 0, d) }

/-- Format a single line. -/
def formatLine (s : Surroundings) (text : Text) (given : Option Int) : CommandResult :=
  let command := "line".toList
  let cursor := given.getD text.length
  if 0 ≤ cursor ∧ cursor ≤ text.length then
    let r := formatter.formatCurrent {} (.ofLines [text] 0 (some (.caret cursor)))
    let changed := match r.result with
      | .ok b => b
      | .error _ => false
    let caret := r.state.selection.getD (.caret cursor)
    s.ok command (if changed then "Line normalized".toList else "Line already canonical".toList)
      [member "input" (.text text), member "line" (.text (r.state.lines.headD [])),
        member "changed" (.bool changed), member "cursor" (.int caret.stop)]
  else
    s.error command ("--cursor must be between 0 and ".toList ++ Text.ofNat text.length)
      [member "cursor" (.int cursor)]

/-- Go on with the path that a text stands for. -/
def withPath (s : Surroundings) (text : Text) (next : Path → CommandResult) : CommandResult :=
  match (Path.ofText text).expand s.homes with
  | .ok p => next p
  | .error e => ⟨.fileFailed e, s.files⟩

/-- Read a Markdown file and go on with it and its path, or end with what is wrong with
it. -/
def load (s : Surroundings) (command path : Text) (next : Path → Markdown → CommandResult) :
    CommandResult :=
  s.withPath path fun p =>
    let fail := fun message => s.error command message [member "path" (.text p.toText)]
    match s.files.hasFile p with
    | .error e => ⟨.fileFailed e, s.files⟩
    | .ok false => fail ("File not found: ".toList ++ p.toText)
    | .ok true =>
      match s.files.read p with
      | .ok text => next p (.ofText text)
      | .error e => fail ("Cannot read ".toList ++ p.toText ++ ": ".toList ++ e.message)

/-- Write a Markdown file and go on. -/
def store (s : Surroundings) (p : Path) (m : Markdown) (next : Surroundings → CommandResult) :
    CommandResult :=
  match s.files.replace p m.text with
  | ⟨.ok (), files⟩ => next { s with files }
  | ⟨.error e, files⟩ => ⟨.fileFailed e, files⟩

/-- The numbers, counted from one, of the lines that differ. -/
def changedLines (before after : List Text) : List Nat :=
  ((before.zip after).zipIdx.filter fun l => l.1.1 != l.1.2).map fun l => l.2 + 1

/-- The lines of a file as a run leaves them, and whether it changed any. -/
def formatted (lines : List Text) : Bool × List Text :=
  if lines.isEmpty then (false, lines)
  else
    let r := formatter.formatFile {} (lines.map some) none (.ofLines lines 0 none)
    match r.result with
    | .ok true => (true, r.state.lines)
    | _ => (false, lines)

/-- Format a file. -/
def formatFile (s : Surroundings) (path : Text) (mode : FormatMode) : CommandResult :=
  let command := "format".toList
  s.load command path fun p m =>
    let (changed, after) := formatted m.lines
    let payload :=
      [member "path" (.text p.toText), member "lines" (.int m.lines.length),
        member "changed_lines"
          (.list ((changedLines m.lines after).map fun (n : Nat) => .int (Int.ofNat n)))]
    match mode with
    | .check =>
      let payload := payload ++ [member "mode" (.text "check".toList)]
      if changed then s.answer command "CHANGED".toList "File is not canonical".toList payload 1
      else s.ok command "File is already canonical".toList payload
    | .print => ⟨.exit 0 (.text { m with lines := after }.text), s.files⟩
    | .replace =>
      if changed then
        s.store p { m with lines := after } fun s =>
          s.ok command "File formatted".toList payload
      else s.ok command "File already canonical".toList payload

/-! ## Assigning -/

/-- The overrides of an order for its wrapper. -/
def overridesOf (o : AssignOrder) (wrapper : Text) : Overrides :=
  match o.type.slot with
  | .delegate => { delegate := .set (some wrapper) }
  | .assignee =>
    { assignee := .set (some wrapper), delegate := if o.clearDelegate then .set none else .keep }

/-- Assign a line of a file to a member. -/
def assign (s : Surroundings) (o : AssignOrder) : CommandResult :=
  let command := "assign".toList
  s.load command o.path fun p m =>
    let index := o.line - 1
    if 0 ≤ index ∧ index < m.lines.length then
      let wrapper := assignment s.instanceId o.member o.slug o.type o.state
      let r := formatter.formatLineAt (overridesOf o wrapper) index (.ofLines m.lines 0 none)
      let line := (r.state.lineAt index).getD []
      let payload :=
        [member "path" (.text p.toText), member "line" (.int o.line), member "text" (.text line)]
      if Text.occurs wrapper line then
        s.store p { m with lines := r.state.lines } fun s =>
          s.ok command "Assignment updated".toList payload
      else s.answer command "WARN".toList "Assignment not applied".toList payload 1
    else
      s.error command
        ("Line ".toList ++ Text.ofInt o.line ++ " is out of range (1..".toList
          ++ Text.ofNat m.lines.length ++ [')'])
        [member "line" (.int o.line)]

/-! ## Settings -/

/-- The settings as they are, if they can be shown. -/
def shownSettings (s : Surroundings) : Except SettingFault (Path × Settings) := do
  let settings ← (Settings.load s.files s.configPath s.yaml).2
  let path ← s.configPath.mapError .file
  if Text.exceedsDigits settings.delay then throw .tooManyDigits
  return (path, settings)

/-- Show the settings. -/
def showSettings (s : Surroundings) : CommandResult :=
  match s.shownSettings with
  | .error e => ⟨.settingFailed e, s.files⟩
  | .ok (path, settings) =>
    s.ok "config".toList "Formatter settings".toList
      [member "path" (.text path.toText),
        (Settings.enabledKey, .bool settings.flags.master),
        (Settings.lineCommitKey, .bool settings.flags.onLineCommit),
        (Settings.leafChangeKey, .bool settings.flags.onLeafChange),
        (Settings.delayKey, .int settings.delay)]

/-- Change settings one after the other, and show them. A fault of the library that is not one of a
value ends the program with nothing printed. -/
def configure (s : Surroundings) : List Text → CommandResult
  | [] => s.showSettings
  | item :: items =>
    let command := "config".toList
    match Text.splitAt? '=' item with
    | none => s.error command ("Expected KEY=VALUE, got ".toList ++ Text.quoted item) []
    | some (key, value) =>
      match (Config.change s.files s.configPath key value s.yaml).2 with
      | ⟨.ok (), files⟩ => configure { s with files } items
      | ⟨.error e, files⟩ =>
        let s := { s with files }
        match e with
        | .file .nullCharacter => s.error command FileFault.nullCharacter.message []
        | .file e => ⟨.fileFailed e, files⟩
        | .dump (.other _) => ⟨.exit 1 (.text []), files⟩
        | e => s.error command e.message []

/-! ## All commands -/

/-- Edit a file, if it is one or does not exist yet. -/
def edit (s : Surroundings) (path : Text) : CommandResult :=
  s.withPath path fun p =>
    match s.files.has p, s.files.hasFile p with
    | .error e, _ | _, .error e => ⟨.fileFailed e, s.files⟩
    | .ok true, .ok false =>
      s.error "edit".toList ("Not a file: ".toList ++ p.toText) [member "path" (.text p.toText)]
    | _, _ => ⟨.edit p, s.files⟩

/-- Run a command. -/
def run (s : Surroundings) : Command → CommandResult
  | .line text cursor => s.formatLine text cursor
  | .format path mode => s.formatFile path mode
  | .assign order => s.assign order
  | .config items => s.configure items
  | .edit path => s.edit path

/-- Do what the arguments of the program ask for. -/
def runArguments (s : Surroundings) (args : List Text) : CommandResult :=
  match Usage.ofArguments args with
  | .command c => s.run c
  | .version => ⟨.exit 0 (.text (version ++ ['\n'])), s.files⟩
  | .help => ⟨.exit 0 .help, s.files⟩
  | .nothing => ⟨.exit 1 .help, s.files⟩
  | .wrong => ⟨.exit 2 (.text []), s.files⟩

end Surroundings

end TaskLine
