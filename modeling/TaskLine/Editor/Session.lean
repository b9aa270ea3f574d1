import TaskLine.Editor.Pane
import TaskLine.Markdown
import TaskLine.Schedule.Delay
import TaskLine.Schedule.Loop
import TaskLine.Settings.Store

/-!
# The editor

An editor holds a file in a pane and a scheduler that formats it. The switches of
the scheduler are read from the configuration whenever they are needed. Saving
writes the lines with the line breaks that the file had; leaving waits until the
scheduler is at rest. What a key does is here; drawing the screen and reading the
keys is left to a library.
-/

namespace TaskLine

/-- An editor, without its scheduler. -/
structure Editor (β : Type := Buffer) where
  pane : Pane β
  files : Files
  /-- Where the configuration is. -/
  configPath : Except FileFault Path
  path : Path
  /-- The file as it was read: its line breaks are kept. -/
  loaded : Markdown
  /-- How long a request is delayed, in milliseconds. -/
  delay : Nat
  statusMessage : Text := []
  /-- How often the editor was left. -/
  exits : Nat := 0
  /-- What the configuration is read and written with. -/
  yaml : Yaml.Library := Yaml.library

/-- Why a file cannot be opened. -/
inductive OpenFault where
  | file (fault : FileFault)
  | settings (fault : SettingFault)
  | delay (fault : Delay.Fault)
deriving DecidableEq, Repr

def OpenFault.message : OpenFault → Text
  | .file f => f.message
  | .settings f => f.message
  | .delay f => f.message

namespace Editor

variable {β : Type} [TextBuffer β]

/-- Read the file to edit. A file that does not exist yet has one empty line. -/
def readFile (fs : Files) (p : Path) : Except FileFault Markdown := do
  if ← fs.has p then return .ofText (← fs.read p) else return { lines := [[]] }

/-- Open a file, with given settings or those of the configuration. -/
def open? (fs : Files) (configPath : Except FileFault Path) (path : Path)
    (given : Option Settings) (yaml : Yaml.Library := Yaml.library) :
    List Warning × Except OpenFault (Editor β) :=
  let (ws, found) : List Warning × Except SettingFault Settings :=
    match given with
    | some s => ([], .ok s)
    | none => Settings.load fs configPath yaml
  (ws, do
    let loaded ← (readFile fs path).mapError OpenFault.file
    let settings ← found.mapError OpenFault.settings
    let delay ← (Delay.ofMillis settings.delay).mapError OpenFault.delay
    return { pane := .ofText (Text.join ['\n'] loaded.lines) 0, files := fs, configPath, path
             loaded, delay, yaml })

/-! ## The scheduler -/

/-- The formatter of the pane. Its clock stands still, so that progress never
shows. -/
def formatter : Formatter (Editor β) :=
  { host := Pane.host.within (·.pane) fun pane e => { e with pane }
    clock := fun e => (.finite 0 0, e) }

/-- Change the listeners of the pane. -/
def relisten (f : Listeners → Listeners) (e : Editor β) : Editor β :=
  { e with pane := { e.pane with listeners := f e.pane.listeners } }

/-- The editor as the world of its scheduler. -/
def setup (delay : Nat) : Setup (Editor β) :=
  { formatter
    allLines? := some fun e => some (TextBuffer.lines e.pane.buffer)
    subscribe? := fun event =>
      some fun e => (.held, e.relisten (Listeners.subscribe event event.name))
    unsubscribe := fun event e => (none, e.relisten (Listeners.unsubscribe event.name))
    switches := fun e =>
      let (ws, s) := Settings.load e.files e.configPath e.yaml
      (ws, match s with
        | .ok s => .ok s.flags
        | .error f => .error f.message)
    delay
    leave := fun e => { e with pane := e.pane.close, exits := e.exits + 1 } }

/-- The setup of a machine for an editor. -/
def setupOf (m : Machine (Editor β)) : Setup (Editor β) := setup m.world.delay

/-- The listeners of the pane are told. -/
def notify (n : Notice) (m : Machine (Editor β)) : Machine (Editor β) :=
  (m.world.pane.reached n).foldl (fun m _ => m.notice (setupOf m) true n) m

/-- The user does something in the pane. -/
def edit (f : Pane β → Pane β × Option Notice) (m : Machine (Editor β)) : Machine (Editor β) :=
  let (pane, notice) := f m.world.pane
  let m := { m with world := { m.world with pane } }
  match notice with
  | some n => notify n m
  | none => m

/-! ## Commands -/

/-- Show a message in the status bar. -/
def setMessage (s : Text) (m : Machine (Editor β)) : Machine (Editor β) :=
  { m with world := { m.world with statusMessage := s, pane := m.world.pane.redraw } }

/-- Write the text to the file. What goes wrong is shown in the status bar, but a path
with a null character is a fault. -/
def save (m : Machine (Editor β)) : Attempt FileFault (Machine (Editor β)) Unit :=
  let e := m.world
  let r := e.files.replace e.path { e.loaded with lines := TextBuffer.lines e.pane.buffer }.text
  let m := { m with world := { e with files := r.state } }
  match r.result with
  | .ok () =>
    .done (setMessage ("Saved ".toList ++ e.path.name)
      { m with world := { m.world with pane := { e.pane with dirty := false } } })
  | .error .nullCharacter => ⟨.error .nullCharacter, m⟩
  | .error f =>
    .done (setMessage ("Save failed: ".toList ++ f.message)
      (m.warn (.saveFailed e.path.toText f.message)))

/-- Format at once, or say that the formatter is switched off. -/
def formatNow (scope : Scope) (m : Machine (Editor β)) :
    Attempt TriggerFault (Machine (Editor β)) Unit :=
  match m.triggerNow (setupOf m) true (.ok { reason := .manual, scope }) with
  | ⟨.ok true, m⟩ => ⟨.ok (), m⟩
  | ⟨.ok false, m⟩ => ⟨.ok (), setMessage "Formatter disabled".toList m⟩
  | ⟨.error e, m⟩ => ⟨.error e, m⟩

/-- The editor appears on the screen: the scheduler listens, and the file counts as
entered. -/
def appear (m : Machine (Editor β)) : Machine (Editor β) :=
  notify .leafChanged (m.attach (setupOf m) true)

/-- A key that does something of its own. -/
inductive Key where
  | enter
  | formatFile
  | formatLine
  | save
  | quit
deriving DecidableEq, Repr

/-- Why a key did not do what it does. -/
inductive KeyFault where
  | trigger (fault : TriggerFault)
  | file (fault : FileFault)
deriving DecidableEq, Repr

def KeyFault.message : KeyFault → Text
  | .trigger f => f.message
  | .file f => f.message

/-- Press a key. Enter commits the line and begins a new one. -/
def press (m : Machine (Editor β)) : Key → Attempt KeyFault (Machine (Editor β)) Unit
  | .enter => .done (edit Pane.newline (notify .lineCommitted m))
  | .formatFile => (formatNow .file m).mapFault .trigger
  | .formatLine => (formatNow .line m).mapFault .trigger
  | .save => (save m).mapFault .file
  | .quit => .done (m.wait .leaver)

/-- Change a setting in the configuration. -/
def configure (name given : Text) (m : Machine (Editor β)) :
    Attempt OptionFault (Machine (Editor β)) Unit :=
  let (ws, r) := Config.change m.world.files m.world.configPath name given m.world.yaml
  let m := ws.foldl (fun m w => m.warn w) m
  ⟨r.result, { m with world := { m.world with files := r.state } }⟩

/-- What the status bar shows. -/
def status (m : Machine (Editor β)) : StatusBar.View :=
  { name := some m.world.path.name, dirty := m.world.pane.dirty
    message := m.world.statusMessage, progress := m.world.pane.progress
    state := m.activity.name }

end Editor

end TaskLine
