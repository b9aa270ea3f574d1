import TaskLine.Text.Digits

/-!
# Arguments

How the arguments of a command are told apart. An argument is an option if it is
the name of one, with a value behind an equals sign if it is a long one, or the
beginning of exactly one long name; several options of one letter may stand
together. Negative numbers, anything with a space in it and a lone dash are
values, and so is everything behind two dashes. What else begins with a dash is an
option that nobody knows.

The arguments are read as a list of events in the order in which they take
effect, so that a call for help counts even if something behind it is wrong.
-/

namespace TaskLine

/-- An option. -/
structure OptionSpec where
  key : Text
  names : List Text
  /-- Whether a value follows. -/
  takesValue : Bool := false
deriving DecidableEq, Repr

/-- What an argument is. -/
inductive Argument where
  | value (s : Text)
  /-- Two dashes: all that follows is a value. -/
  | dashes
  /-- An option, the name by which it was recognised, and a value that comes with
  it. -/
  | option (spec : OptionSpec) (name : Text) (attached : Option Text)
  | unknown
deriving DecidableEq, Repr

/-- What the arguments say, one after the other. -/
inductive ArgumentEvent where
  | option (key : Text) (value : Option Text)
  | values (vs : List Text)
  /-- Something that nobody asked for. -/
  | surplus
  /-- Something that cannot be understood. -/
  | wrong
deriving DecidableEq, Repr

namespace Argument

/-! ## Telling arguments apart -/

/-- Whether a name begins with two dashes. -/
def isLong (name : Text) : Bool := name.take 2 = ['-', '-']

/-- An option by its name. -/
def named? (specs : List OptionSpec) (name : Text) : Option OptionSpec :=
  specs.find? fun o => o.names.contains name

/-- The options with a name that begins in some way, each with that name. -/
def startingWith (specs : List OptionSpec) (start : Text) : List (OptionSpec × Text) :=
  specs.flatMap fun o => (o.names.filter fun n => start.isPrefixOf n).map fun n => (o, n)

/-- What an argument can be short for, with what comes attached to it. -/
def candidates (specs : List OptionSpec) (s : Text) : List (OptionSpec × Text × Option Text) :=
  if isLong s then
    let (start, attached) := match Text.splitAt? '=' s with
      | some (a, b) => (a, some b)
      | none => (s, none)
    (startingWith specs start).map fun (o, n) => (o, n, attached)
  else
    match named? specs (s.take 2) with
    | some o => [(o, s.take 2, some (s.drop 2))]
    | none => []

/-- Whether a text is a negative number, with or without a point. -/
def isNegative (s : Text) : Bool :=
  let digit := fun c => (Text.digitValue? c).isSome
  let digits := fun (t : Text) => !t.isEmpty && t.all digit
  let s := if s.getLast? = some '\n' then s.dropLast else s
  match s with
  | '-' :: cs =>
    digits cs || (match Text.splitAt? '.' cs with
      | some (whole, fraction) => whole.all digit && digits fraction
      | none => false)
  | _ => false

/-- What an argument is, if it is not short for several options. -/
def classify? (specs : List OptionSpec) (s : Text) : Option Argument :=
  let attached? := (Text.splitAt? '=' s).bind fun (n, v) =>
    (named? specs n).map fun o => Argument.option o n (some v)
  if s.head? ≠ some '-' then some (.value s)
  else
    match named? specs s, attached? with
    | some o, _ => some (.option o s none)
    | none, some a => some a
    | none, none =>
      if s.length = 1 then some (.value s)
      else
        match candidates specs s with
        | [(o, n, v)] => some (.option o n v)
        | _ :: _ :: _ => none
        | [] => some (if isNegative s || s.contains ' ' then .value s else .unknown)

/-- What all arguments are. -/
def classifyAll? (specs : List OptionSpec) : List Text → Option (List Argument)
  | [] => some []
  | s :: ss =>
    if s = ['-', '-'] then some (.dashes :: ss.map .value)
    else
      match classify? specs s, classifyAll? specs ss with
      | some a, some as => some (a :: as)
      | _, _ => none

/-! ## Events -/

/-- The options of one letter that stand together in an argument, `o` being the
first one; one that takes a value has the rest for it. -/
def bundle (specs : List OptionSpec) (o : OptionSpec) : Text → Option (List ArgumentEvent)
  | [] => none
  | c :: cs =>
    if o.takesValue then some [.option o.key (some (c :: cs))]
    else
      match named? specs ['-', c] with
      | none => none
      | some next =>
        if cs.isEmpty && !next.takesValue then
          some [.option o.key none, .option next.key none]
        else (bundle specs next cs).map (.option o.key none :: ·)

/-- The events of an option that has something attached to it. -/
def attachedEvents (specs : List OptionSpec) (o : OptionSpec) (name attached : Text) :
    List ArgumentEvent :=
  if o.takesValue then [.option o.key (some attached)]
  else if isLong name then [.wrong]
  else (bundle specs o attached).getD [.wrong]

/-- The values at the start, and what follows the last of at most `wanted` ones.
Dashes beside them are left out. -/
def takeValues : (wanted : Nat) → List Argument → List Text × List Argument
  | wanted, .dashes :: as => takeValues wanted as
  | wanted + 1, .value s :: as =>
    let (vs, rest) := takeValues wanted as
    (s :: vs, rest)
  | _, as => ([], as)

/-- The events of some arguments, of which `wanted` are to be values. `fuel` is at
least their number. -/
def eventsWithin (specs : List OptionSpec) :
    (fuel wanted : Nat) → List Argument → List ArgumentEvent
  | 0, _, _ => []
  | _, _, [] => []
  | n + 1, wanted, .option o name (some attached) :: as =>
    attachedEvents specs o name attached ++ eventsWithin specs n wanted as
  | n + 1, wanted, .option o _ none :: as =>
    if o.takesValue then
      match as with
      | .value v :: as => .option o.key (some v) :: eventsWithin specs n wanted as
      | _ => [.wrong]
    else .option o.key none :: eventsWithin specs n wanted as
  | n + 1, wanted, .unknown :: as => .surplus :: eventsWithin specs n wanted as
  | n + 1, wanted, a :: as =>
    match takeValues wanted (a :: as) with
    | ([], _) => .surplus :: eventsWithin specs n wanted as
    | (vs, rest) => .values vs :: eventsWithin specs n (wanted - vs.length) rest

/-- What some arguments say; nothing if one of them is short for several
options. -/
def events? (specs : List OptionSpec) (wanted : Nat) (args : List Text) :
    Option (List ArgumentEvent) :=
  (classifyAll? specs args).map fun as => eventsWithin specs as.length wanted as

end Argument

end TaskLine
