import TaskLine.Text.Digits
import TaskLine.Text.Quoted

/-!
# Envelopes

What a command prints: one object with the command, its status, a message, a
timestamp and a payload, written as indented JSON. Members are written in the
order in which they are listed; characters beyond ASCII are written as they are.
-/

namespace TaskLine

/-- A JSON value with whole numbers. -/
inductive Json where
  | null
  | bool (b : Bool)
  | int (n : Int)
  | text (s : Text)
  | list (items : List Json)
  | object (members : List (Text × Json))
deriving Inhabited

namespace Json

/-- How a character is written inside a JSON string. -/
def charText (c : Char) : Text :=
  if c = '"' then "\\\"".toList
  else if c = '\\' then "\\\\".toList
  else if c = '\n' then "\\n".toList
  else if c = '\r' then "\\r".toList
  else if c = '\t' then "\\t".toList
  else if c.toNat = 8 then "\\b".toList
  else if c.toNat = 12 then "\\f".toList
  else if c.toNat < 32 then "\\u".toList ++ Text.hex 4 c.toNat
  else [c]

def stringText (s : Text) : Text := '"' :: s.flatMap charText ++ ['"']

/-- A line break and the indentation of a depth. -/
def lineStart (depth : Nat) : Text := '\n' :: Text.spaces (2 * depth)

mutual

/-- A value that stands at a depth of indentation. -/
def write (depth : Nat) : Json → Text
  | .null => "null".toList
  | .bool true => "true".toList
  | .bool false => "false".toList
  | .int n => Text.ofInt n
  | .text s => stringText s
  | .list [] => "[]".toList
  | .list (v :: vs) =>
    '[' :: lineStart (depth + 1) ++ write (depth + 1) v ++ writeItems (depth + 1) vs
      ++ lineStart depth ++ [']']
  | .object [] => ['\x7b', '\x7d']
  | .object ((k, v) :: ms) =>
    '\x7b' :: lineStart (depth + 1) ++ stringText k ++ ": ".toList ++ write (depth + 1) v
      ++ writeMembers (depth + 1) ms ++ lineStart depth ++ ['\x7d']

/-- The items behind the first one, each on its own line. -/
def writeItems (depth : Nat) : List Json → Text
  | [] => []
  | v :: vs => ',' :: lineStart depth ++ write depth v ++ writeItems depth vs

/-- The members behind the first one, each on its own line. -/
def writeMembers (depth : Nat) : List (Text × Json) → Text
  | [] => []
  | (k, v) :: ms =>
    ',' :: lineStart depth ++ stringText k ++ ": ".toList ++ write depth v
      ++ writeMembers depth ms

end

/-- Whether a value says nothing: null, false, zero, and what is empty. -/
def isVoid : Json → Bool
  | .null | .bool false | .int 0 | .text [] | .list [] | .object [] => true
  | _ => false

end Json

/-- What a command prints. -/
structure Envelope where
  command : Json
  status : Json := .text "OK".toList
  message : Json := .text []
  timestamp : Option Text := none
  payload : Json := .object []

namespace Envelope

/-- The object of an envelope. A payload that says nothing is an empty object. -/
def toJson (e : Envelope) : Json :=
  .object ([("command".toList, e.command), ("status".toList, e.status),
      ("message".toList, e.message)]
    ++ (e.timestamp.map fun t => ("timestamp".toList, Json.text t)).toList
    ++ [("payload".toList, if e.payload.isVoid then .object [] else e.payload)])

/-- The printed text, with a line break at its end. -/
def text (e : Envelope) : Text := e.toJson.write 0 ++ ['\n']

end Envelope

end TaskLine
