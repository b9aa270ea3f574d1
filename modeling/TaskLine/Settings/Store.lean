import TaskLine.Files.Home
import TaskLine.Files.Store
import TaskLine.Schedule.Warning
import TaskLine.Settings.Value
import TaskLine.Text.LetterCase
import TaskLine.Yaml.Library

/-!
# Settings

Settings are kept in a configuration file, which a library reads and writes. A file
that cannot be read counts as empty, with a warning; keys that mean nothing here are
kept. A setting is changed by a key and a text; both are checked before anything is
written.
-/

namespace TaskLine

/-- A configuration: its members, each key once. -/
structure Config where
  entries : List (Setting × Setting) := []
  /-- The objects of the document that the members come from. -/
  objects : Yaml.Objects := []
  /-- The number of the object that the members are. -/
  id : Nat := 0
deriving Repr

namespace Config

/-- Set a key. A key that is there already keeps its place. -/
def put (key : Text) (value : Setting) (c : Config) : Config :=
  { c with entries := Yaml.Value.putEntry (.text key) value c.entries }

def get? (key : Text) (c : Config) : Option Setting :=
  (c.entries.find? fun e => Yaml.Value.sameKey e.1 (.text key)).map Prod.snd

/-- The configuration in a document. What is no mapping counts as empty. -/
def ofDocument (d : Yaml.Document) : Config :=
  match d.root with
  | .object id =>
    match d.objects.lookup id with
    | some (.mapping entries) => { entries, objects := d.objects, id }
    | _ => {}
  | _ => {}

/-- The document of a configuration: its members take the place of the object that
they come from. -/
def document (c : Config) : Yaml.Document :=
  { root := .object c.id, objects := (c.id, .mapping c.entries) :: c.objects }

/-- Read line breaks of every kind as line feeds. -/
def plainBreaks : Text → Text
  | '\r' :: '\n' :: cs => '\n' :: plainBreaks cs
  | '\r' :: cs => '\n' :: plainBreaks cs
  | c :: cs => c :: plainBreaks cs
  | [] => []

/-- The configuration of a file. A fault is one of the path only. -/
def load (fs : Files) (p : Path) (yaml : Yaml.Library) : List Warning × Except FileFault Config :=
  match fs.has p with
  | .error e => ([], .error e)
  | .ok false => ([], .ok {})
  | .ok true =>
    match fs.read p with
    | .ok s =>
      match yaml.load (plainBreaks s) with
      | some d => ([], .ok (ofDocument d))
      | none => ([.unreadableConfig], .ok {})
    | .error _ => ([.unreadableConfig], .ok {})

end Config

/-! ## Settings -/

/-- The settings of the formatter. -/
structure Settings where
  flags : Flags := {}
  /-- How long a request is delayed, in milliseconds. -/
  delay : Int := 300
deriving DecidableEq, Repr

namespace Settings

/-- Where the configuration is: at a path from outside, which may begin with a home
directory, or else at a path of its own. -/
def path (homes : List (Text × Text)) (outside : Text) (own : Path) : Except FileFault Path :=
  let outside := Text.trim outside
  if outside.isEmpty then .ok own else (Path.ofText outside).expand homes

def enabledKey : Text := "enabled".toList

def lineCommitKey : Text := "on_line_commit".toList

def leafChangeKey : Text := "on_leaf_change".toList

def delayKey : Text := "debounce_ms".toList

/-- The settings that a configuration holds. -/
def ofConfig (c : Config) : Except SettingFault Settings := do
  let switch := fun key => ((c.get? key).getD (.bool true)).toBool c.objects true
  let master ← switch enabledKey
  let onLineCommit ← switch lineCommitKey
  let onLeafChange ← switch leafChangeKey
  let delay ← ((c.get? delayKey).getD (.int 300)).toNat 300
  return { flags := { master, onLineCommit, onLeafChange }, delay }

/-- The settings of a configuration file. -/
def load (fs : Files) (p : Except FileFault Path) (yaml : Yaml.Library := Yaml.library) :
    List Warning × Except SettingFault Settings :=
  match p with
  | .error e => ([], .error (.file e))
  | .ok p =>
    let (ws, c) := Config.load fs p yaml
    (ws, (c.mapError .file).bind ofConfig)

end Settings

/-! ## Changing settings -/

/-- Why a setting cannot be changed. -/
inductive OptionFault where
  | unknownKey (key : Text)
  | noSwitch (key given : Text)
  | noNumber (key given : Text)
  /-- Digits that make no number. -/
  | badDigits (value : Text)
  /-- A number has so many digits, which are too many. -/
  | tooManyDigits (found : Nat)
  | dump (fault : Yaml.DumpFault)
  | file (fault : FileFault)
deriving DecidableEq, Repr

def OptionFault.message : OptionFault → Text
  | .unknownKey key => "Unknown setting: ".toList ++ Text.quoted key
  | .noSwitch key given => key ++ " expects a boolean, got ".toList ++ Text.quoted given
  | .noNumber key given =>
    key ++ " expects a non-negative integer, got ".toList ++ Text.quoted given
  | .badDigits value =>
    "invalid literal for int() with base 10: ".toList ++ (Text.quoted value).take 200
  | .tooManyDigits found => Text.tooManyDigits (some found)
  | .dump f => f.message
  | .file f => f.message

namespace Config

/-- The key that a given name means. -/
def keyOf (name : Text) : Text := Text.replace '-' '_' (Text.lower (Text.trim name))

/-- The value that a text gives a key. -/
def valueFor (key given : Text) : Except OptionFault Setting :=
  let value := Text.trim given
  if [Settings.enabledKey, Settings.lineCommitKey, Settings.leafChangeKey].contains key then
    match switch? value with
    | some b => .ok (.bool b)
    | none => .error (.noSwitch key given)
  else if key = Settings.delayKey then
    if value.isEmpty || !value.all Text.isDigit then .error (.noNumber key given)
    else
      match Text.parseInt value with
      | .ok n => .ok (.int n)
      | .error .malformed => .error (.badDigits value)
      | .error (.tooLong digits) => .error (.tooManyDigits digits)
  else .error (.unknownKey key)

/-- Write a configuration to a file. Without members the file is removed. -/
def save (fs : Files) (p : Path) (c : Config) (yaml : Yaml.Library) :
    Attempt OptionFault Files Unit :=
  if c.entries.isEmpty then (fs.remove p).mapFault .file
  else
    ((fs.makeParents p).mapFault .file).andThen fun _ fs =>
      match yaml.dump c.document with
      | .error e => ⟨.error (.dump e), fs⟩
      | .ok s => (fs.write p s).mapFault .file

/-- Change a setting in a configuration file. The file is read first, whether the
change can be made or not. -/
def change (fs : Files) (p : Except FileFault Path) (name given : Text)
    (yaml : Yaml.Library := Yaml.library) : List Warning × Attempt OptionFault Files Unit :=
  match p with
  | .error e => ([], ⟨.error (.file e), fs⟩)
  | .ok p =>
    let (ws, c) := load fs p yaml
    let key := keyOf name
    (ws,
      match c.mapError .file, valueFor key given with
      | .error e, _ | _, .error e => ⟨.error e, fs⟩
      | .ok c, .ok v => save fs p (c.put key v) yaml)

/-- Empty a configuration file. -/
def clear (fs : Files) (p : Except FileFault Path) (yaml : Yaml.Library := Yaml.library) :
    Attempt OptionFault Files Unit :=
  match p with
  | .error e => ⟨.error (.file e), fs⟩
  | .ok p => save fs p {} yaml

end Config

end TaskLine
