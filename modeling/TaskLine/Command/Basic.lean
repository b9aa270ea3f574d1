import TaskLine.Command.Arguments
import TaskLine.Member

/-!
# Commands

What the program can be told to do, and how its arguments say it. The arguments
of a command follow its name; two options of the program itself come before it.
-/

namespace TaskLine

/-- What becomes of a formatted file. -/
inductive FormatMode where
  | replace
  /-- Only say whether it would change. -/
  | check
  /-- Print it. -/
  | print
deriving DecidableEq, Repr

/-- What to assign to which line. -/
structure AssignOrder where
  path : Text
  /-- The number of the line, counted from one. -/
  line : Int
  member : Text
  slug : Text
  type : MemberType := .teamMember
  state : AssignmentState := .active
  clearDelegate : Bool := false
deriving DecidableEq, Repr

/-- A command. -/
inductive Command where
  | line (text : Text) (cursor : Option Int)
  | format (path : Text) (mode : FormatMode)
  | assign (order : AssignOrder)
  | config (assignments : List Text)
  | edit (path : Text)
deriving DecidableEq, Repr

/-- What some arguments ask for. -/
inductive Usage where
  | command (c : Command)
  | version
  | help
  /-- There is no command. -/
  | nothing
  /-- The arguments cannot be understood. -/
  | wrong
deriving DecidableEq, Repr

namespace Usage

def option (name : String) (takesValue : Bool) : OptionSpec :=
  ⟨name.toList, [("--" ++ name).toList], takesValue⟩

def helpOption : OptionSpec := ⟨"help".toList, ["-h".toList, "--help".toList], false⟩

def helpKey : Text := "help".toList

/-- Take events in their order, up to one that asks for help or is wrong. -/
def gather {σ : Type} (take : σ → ArgumentEvent → Option σ) :
    List ArgumentEvent → σ → Except Usage σ
  | [], s => .ok s
  | .wrong :: _, _ => .error .wrong
  | e :: es, s =>
    if e = .option helpKey none then .error .help
    else
      match take s e with
      | some s => gather take es s
      | none => .error .wrong

/-- Read the arguments of a command. Something that nobody asked for is complained
about at the end. -/
def read {σ : Type} (specs : List OptionSpec) (wanted : Nat)
    (take : σ → ArgumentEvent → Option σ) (init : σ) (args : List Text)
    (finish : σ → Option Command) : Usage :=
  match Argument.events? (helpOption :: specs) wanted args with
  | none => .wrong
  | some es =>
    match gather (fun s e => if e = .surplus then some s else take s e) es init with
    | .error u => u
    | .ok s =>
      if es.contains .surplus then .wrong
      else
        match finish s with
        | some c => .command c
        | none => .wrong

/-! ## The commands -/

def readLine (args : List Text) : Usage :=
  read [option "cursor" true] 1
    (fun (s : Option Text × Option Int) e =>
      match e with
      | .values [v] => some (some v, s.2)
      | .option _ (some v) => (Text.readInt? v).map fun n => (s.1, some n)
      | _ => none)
    (none, none) args fun s => s.1.map fun text => .line text s.2

def readFormat (args : List Text) : Usage :=
  read [option "check" false, option "stdout" false] 1
    (fun (s : Option Text × FormatMode) e =>
      match e with
      | .values [v] => some (some v, s.2)
      | .option key none =>
        let mode := if key = "check".toList then FormatMode.check else .print
        if s.2 = .replace ∨ s.2 = mode then some (s.1, mode) else none
      | _ => none)
    (none, .replace) args fun s => s.1.map fun path => .format path s.2

/-- What is known of an order while its arguments are read. -/
structure AssignDraft where
  values : List Text := []
  line : Option Int := none
  member : Option Text := none
  slug : Option Text := none
  type : MemberType := .teamMember
  state : AssignmentState := .active
  clearDelegate : Bool := false

namespace AssignDraft

/-- Take further values: the path and then the number of the line. -/
def takeValues : List Text → AssignDraft → Option AssignDraft
  | [], d => some d
  | v :: vs, d =>
    if d.values.isEmpty then takeValues vs { d with values := [v] }
    else
      match Text.readInt? v with
      | some n => takeValues vs { d with values := d.values ++ [v], line := some n }
      | none => none

def takeOption (key value : Text) (d : AssignDraft) : Option AssignDraft :=
  if key = "member".toList then some { d with member := some value }
  else if key = "slug".toList then some { d with slug := some value }
  else if key = "type".toList then
    (MemberType.ofName? value).map fun type => { d with type }
  else (AssignmentState.ofName? value).map fun state => { d with state }

def order? (d : AssignDraft) : Option AssignOrder :=
  match d.values, d.line, d.member, d.slug with
  | path :: _, some line, some member, some slug =>
    some { path, line, member, slug, type := d.type, state := d.state
           clearDelegate := d.clearDelegate }
  | _, _, _, _ => none

end AssignDraft

def readAssign (args : List Text) : Usage :=
  read [option "member" true, option "slug" true, option "type" true, option "state" true,
      option "clear-delegate" false] 2
    (fun (d : AssignDraft) e =>
      match e with
      | .values vs => d.takeValues vs
      | .option key (some v) => d.takeOption key v
      | .option _ none => some { d with clearDelegate := true }
      | _ => none)
    {} args fun d => d.order?.map .assign

def readConfig (args : List Text) : Usage :=
  read [option "set" true] 0
    (fun (items : List Text) e =>
      match e with
      | .option _ (some v) => some (items ++ [v])
      | _ => none)
    [] args fun items => some (.config items)

def readEdit (args : List Text) : Usage :=
  read [] 1
    (fun (_ : Option Text) e =>
      match e with
      | .values [v] => some (some v)
      | _ => none)
    none args fun path => path.map .edit

/-- Read the arguments behind the name of a command. -/
def readCommand (name : Text) (args : List Text) : Usage :=
  match String.ofList name with
  | "line" => readLine args
  | "format" => readFormat args
  | "assign" => readAssign args
  | "config" => readConfig args
  | "edit" => readEdit args
  | _ => .wrong

/-! ## The program -/

/-- The options of the program itself. -/
def programOptions : List OptionSpec :=
  [helpOption, option "version" false,
    ⟨"verbose".toList, ["--verbose".toList, "-v".toList], false⟩]

/-- What was said before the name of a command. -/
structure Opening where
  version : Bool := false
  surplus : Bool := false

/-- Take the events of an option of the program. -/
def Opening.take (o : Opening) (e : ArgumentEvent) : Option Opening :=
  match e with
  | .option key none => some { o with version := o.version || key = "version".toList }
  | .surplus => some { o with surplus := true }
  | _ => none

/-- What follows from the opening once the command is known. -/
def Opening.close (o : Opening) (u : Usage) : Usage :=
  match u with
  | .help | .wrong => u
  | .command _ | .nothing | .version =>
    if o.surplus then .wrong else if o.version then .version else u

/-- Read arguments that were told apart already, each with its text. -/
def readOpening : Opening → List (Argument × Text) → Usage
  | o, [] => o.close .nothing
  | o, (.value name, _) :: rest => o.close (readCommand name (rest.map (·.2)))
  | _, (.dashes, _) :: _ => .wrong
  | o, (a, _) :: rest =>
    match gather Opening.take (Argument.eventsWithin programOptions 1 0 [a]) o with
    | .error u => u
    | .ok o => readOpening o rest

/-- Read the arguments of the program. -/
def ofArguments (args : List Text) : Usage :=
  match Argument.classifyAll? programOptions args with
  | none => .wrong
  | some as => readOpening {} (as.zip args)

end Usage

end TaskLine
