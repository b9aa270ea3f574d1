import Std.Time.Format
import TaskLine.Command.Run

/-!
# The program

The outer layer: it finds the configuration file, reads the files that a command
names, runs the command on them, and writes back what the command changed. What
the command does is decided elsewhere. The help has a text of its own here, and
nothing is logged.
-/

namespace TaskLine

/-- What is printed for a call for help. -/
def helpText : String :=
  String.intercalate "\n"
    ["usage: taskcanon [-h] [--version] [--verbose] COMMAND ...",
      "",
      "  line TEXT [--cursor N]                normalize a single task line",
      "  format PATH [--check | --stdout]      normalize every task line of a file",
      "  assign PATH LINE --member NAME --slug SLUG [--type TYPE] [--state STATE]",
      "         [--clear-delegate]             set the assignee of one task line",
      "  config [--set KEY=VALUE]              show or change the settings",
      "  edit PATH                             open a file in the editor",
      ""]

/-- The file that a command works on. -/
def Command.path? : Command → Option Text
  | .format path _ | .edit path => some path
  | .assign order => some order.path
  | .line _ _ | .config _ => none

/-- Look up one place in the file system and put what is found there into the
files. -/
def Files.load (fs : Files) (names : List Text) : IO Files := do
  let place := (← IO.currentDir) / String.ofList (fs.absolute names)
  if ← place.isDir then return { fs with directories := names :: fs.directories }
  else if ← place.pathExists then
    let bytes ← IO.FS.readBinFile place
    return fs.put names (.ofBytes (bytes.toList.map UInt8.toNat))
  else return fs

/-- Look up every place that a path leads through. -/
def Files.loadPath (fs : Files) (p : Path) : IO Files := do
  if p.hasNull then return fs
  let names := (fs.start? p).getD [] ++ p.names
  (Files.onTheWay names).foldlM (fun fs names => fs.load (Files.resolved names)) fs

/-- Write the files that are not as they were, and remove those that are gone. -/
def Files.store (before after : Files) : IO Unit := do
  let root ← IO.currentDir
  let place := fun names => root / String.ofList (after.absolute names)
  for (names, content) in after.files do
    if !before.files.contains (names, content) then
      let directory := place names.dropLast
      IO.FS.createDirAll directory
      match content with
      | .text s => IO.FS.writeFile (place names) (String.ofList s)
      | .broken bytes _ =>
        IO.FS.writeBinFile (place names) ⟨(bytes.map UInt8.ofNat).toArray⟩
  for (names, _) in before.files do
    if after.files.all fun f => f.1 != names then IO.FS.removeFile (place names)

/-- The time in universal time. -/
def timestamp : IO Text := do
  let now := Std.Time.DateTime.ofTimestampWithZone (← Std.Time.Timestamp.now) .UTC
  return (now.format "uuuu-MM-dd'T'HH:mm:ss.SSSSSSxxx").toList

/-- A fresh instance id. -/
def freshId : IO Text := do
  return "tpl-".toList ++ Text.hex 10 (← IO.rand 0 (Nat.pow 16 10 - 1))

/-- What a command finds around it. -/
def surroundings (args : List Text) : IO Surroundings := do
  let outside := (← IO.getEnv "TASKCANON_CONFIG").getD ""
  let home := ((← IO.getEnv "HOME").getD "").toList
  let homes := [([], home)]
  let configPath :=
    Settings.path homes outside.toList (.ofText (home ++ "/.taskcanon_config.yaml".toList))
  let here := (Path.ofText (← IO.currentDir).toString.toList).names
  let command := match Usage.ofArguments args with
    | .command c => c.path?.toList.map fun s => (Path.ofText s).expand homes
    | _ => []
  let empty : Files := { here, directories := Files.onTheWay here }
  let files ← (configPath :: command).foldlM (fun fs p => match p with
    | .ok p => fs.loadPath p
    | .error _ => pure fs) empty
  return { files, homes, configPath, instanceId := ← freshId, timestamp := ← timestamp }

/-- Print how a command ended; the result is the exit code. -/
def Ending.report : Ending → IO UInt32
  | .exit code .help => do
    IO.print helpText
    return UInt32.ofNat code
  | .exit code (.text s) => do
    IO.print (String.ofList s)
    return UInt32.ofNat code
  | .edit path => do
    IO.eprintln ("There is no screen to edit " ++ String.ofList path.toText)
    return 1
  | .settingFailed fault => do
    IO.eprintln (String.ofList fault.message)
    return 1
  | .fileFailed fault => do
    IO.eprintln (String.ofList fault.message)
    return 1

end TaskLine

open TaskLine in
/-- Run a command. -/
def main (args : List String) : IO UInt32 := do
  let args := args.map String.toList
  let s ← surroundings args
  let r := s.runArguments args
  s.files.store r.files
  r.ending.report
