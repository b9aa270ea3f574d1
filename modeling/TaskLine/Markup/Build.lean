import TaskLine.Text.Digits
import TaskLine.Text.LetterCase

/-!
# Building wrappers

Wrappers are written with their key and properties as escaped attributes. A
property name is turned from camel case into lower-case words with hyphens.
Every wrapper gets a fresh instance id, which the caller supplies.
-/

namespace TaskLine.Markup

/-- The escape of a character that means something in markup. -/
def escapeChar (c : Char) : Text :=
  if c = '&' then "&amp;".toList
  else if c = '<' then "&lt;".toList
  else if c = '>' then "&gt;".toList
  else if c = '"' then "&quot;".toList
  else if c = '\'' then "&#x27;".toList
  else [c]

/-- A text that stands for itself inside markup and inside quotes. -/
def escape (s : Text) : Text := s.flatMap escapeChar

/-! ## Property names -/

/-- Put a hyphen between a lower-case letter or a digit and the capital that
follows it. -/
def hyphenate : Text → Text
  | [] => []
  | [c] => [c]
  | c :: d :: cs =>
    if (Text.isAsciiLower c || Text.isAsciiDigit c) && Text.isAsciiUpper d then
      c :: '-' :: hyphenate (d :: cs)
    else c :: hyphenate (d :: cs)

/-- Whether a character separates the words of a name. -/
def separatesWords (c : Char) : Bool := c == '_' || Text.isSpace c

/-- One hyphen for every run of separators; `within` tells whether a run has
begun. -/
def joinWords (within : Bool) : Text → Text
  | [] => []
  | c :: cs =>
    if separatesWords c then
      if within then joinWords true cs else '-' :: joinWords true cs
    else c :: joinWords false cs

/-- A property name in lower-case words with hyphens. -/
def kebab (name : Text) : Text := Text.lower (joinWords false (hyphenate name))

/-! ## Elements -/

/-- The value of a property. -/
inductive PropValue where
  | text (s : Text)
  | int (n : Int)
  | bool (b : Bool)
  /-- The property is left out. -/
  | absent
deriving DecidableEq, Repr

/-- What an attribute says for a value; none if it is left out. -/
def PropValue.written? : PropValue → Option Text
  | .text s => some s
  | .int n => some (Text.ofInt n)
  | .bool true => some "true".toList
  | .bool false => some "false".toList
  | .absent => none

/-- Whether a value is a whole number with too many digits to be written. -/
def PropValue.exceedsDigits : PropValue → Bool
  | .int n => Text.exceedsDigits n
  | .text _ | .bool _ | .absent => false

/-- Set a property: a name that is there already keeps its position. -/
def setProp (name : Text) (v : PropValue) : List (Text × PropValue) → List (Text × PropValue)
  | [] => [(name, v)]
  | (n, w) :: rest => if n = name then (n, v) :: rest else (n, w) :: setProp name v rest

/-- An attribute with a space in front and its value escaped. -/
def attributeText (name v : Text) : Text :=
  ' ' :: name ++ "=\"".toList ++ escape v ++ ['"']

/-- The attribute of a property; nothing if the property is left out. -/
def propText (p : Text × PropValue) : Text :=
  match p.2.written? with
  | some v => attributeText ("data-".toList ++ kebab p.1) v
  | none => []

/-- A wrapper around `inner` for an instance of a template. -/
def wrap (id key inner : Text) (props : List (Text × PropValue)) : Text :=
  "<span data-template-wrapper=\"".toList ++ id ++ ['"']
    ++ attributeText "data-template-key".toList key
    ++ props.flatMap propText ++ ['>'] ++ inner ++ "</span>".toList

/-- A wrapper with any properties, or what is said of a number that cannot be written. -/
def wrapFor (id key inner : Text) (props : List (Text × PropValue)) : Except Text Text :=
  if props.any fun p => p.2.exceedsDigits then .error (Text.tooManyDigits none)
  else .ok (wrap id key inner props)

/-- A style rule, if it has a value that is not empty. -/
def styleRule (name : String) (v : Option Text) : List Text :=
  match v with
  | some (c :: cs) => [name.toList ++ ": ".toList ++ escape (c :: cs) ++ [';']]
  | _ => []

/-- A coloured mark around a text, which may be bold. -/
def chip (text : Text) (background color : Option Text) (bold : Bool) : Text :=
  let rules := styleRule "background" background ++ styleRule "color" color
  let style :=
    if rules.isEmpty then [] else " style=\"".toList ++ Text.join [' '] rules ++ ['"']
  let content :=
    if bold then "<strong>".toList ++ text ++ "</strong>".toList else text
  "<mark".toList ++ style ++ ['>'] ++ content ++ "</mark>".toList

end TaskLine.Markup
