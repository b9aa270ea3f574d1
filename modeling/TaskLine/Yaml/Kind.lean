import TaskLine.Yaml.Moment
import TaskLine.Yaml.Words

/-!
# Kinds of nodes

A tag says of what kind a node is. A plain scalar without a tag has the kind that
its form gives it, by the rules of YAML 1.1: numbers can be written in several
bases, with underscores between the digits, and in base sixty with colons. A form
does not promise substance: a day can have the form of one that no month has.
-/

namespace TaskLine.Yaml

/-- The kinds that a node can be of. -/
inductive Kind where
  | null
  | bool
  | int
  | float
  | binary
  | moment
  /-- A list of mappings of one member each, as pairs. -/
  | pairs
  /-- A mapping as the set of its keys. -/
  | set
  | text
  | sequence
  | mapping
  /-- The key of members that come from another mapping. -/
  | merge
  /-- The key of the value that stands for a mapping where a scalar is wanted. -/
  | standIn
  /-- A kind that is not known here. -/
  | unknown
deriving DecidableEq, Repr

namespace Kind

/-- The text at the front of the tags of all known kinds. -/
def family : Text := "tag:yaml.org,2002:".toList

/-- The kind that a tag says. -/
def ofTag (tag : Text) : Kind :=
  match Text.after? family tag with
  | none => .unknown
  | some name =>
    match String.ofList name with
    | "null" => .null
    | "bool" => .bool
    | "int" => .int
    | "float" => .float
    | "binary" => .binary
    | "timestamp" => .moment
    | "omap" | "pairs" => .pairs
    | "set" => .set
    | "str" => .text
    | "seq" => .sequence
    | "map" => .mapping
    | "merge" => .merge
    | "value" => .standIn
    | _ => .unknown

/-! ## Forms of numbers -/

/-- Whether all characters are digits of a base or underscores, and there is one. -/
def isDigits (base : Nat) (s : Text) : Bool :=
  !s.isEmpty && s.all fun c => c = '_' || match Text.hexValue? c with
    | some n => decide (n < base)
    | none => false

/-- Whether a text is a digit with digits and underscores behind it. -/
def isNumeral (s : Text) : Bool :=
  match s with
  | c :: _ => Text.isAsciiDigit c && isDigits 10 s
  | [] => false

/-- Whether a part of a number in base sixty has one digit, or two below sixty. -/
def isSixtieth (s : Text) : Bool :=
  match s with
  | [a] => Text.isAsciiDigit a
  | [a, b] => '0' ≤ a && a ≤ '5' && Text.isAsciiDigit b
  | _ => false

/-- Whether a text has the form of a whole number. -/
def isInt (s : Text) : Bool :=
  match (Text.splitSign s).2 with
  | '0' :: 'b' :: ds => isDigits 2 ds
  | '0' :: 'x' :: ds => isDigits 16 ds
  | ['0'] => true
  | '0' :: ds => isDigits 8 ds
  | body =>
    match Text.splitOn ':' body with
    | d :: ds => isNumeral d && ds.all isSixtieth
    | [] => false

/-- Whether a text is an exponent, or nothing. -/
def isExponent : Text → Bool
  | [] => true
  | e :: sign :: ds =>
    (e = 'e' || e = 'E') && (sign = '+' || sign = '-') && !ds.isEmpty && ds.all Text.isAsciiDigit
  | _ => false

/-- The texts of three spellings of a word: all small, capitalised, all capitals. -/
def spellings (word : String) : List Text :=
  let small := word.toList
  let capital := small.map Char.toUpper
  [small, capital.take 1 ++ small.drop 1, capital]

/-- Whether a text has the form of a number with a point. Without a digit before the
point there is no sign either. -/
def isFloat (s : Text) : Bool :=
  let body := (Text.splitSign s).2
  match Text.splitAt? '.' body with
  | none => false
  | some (whole, rest) =>
    let digits := rest.takeWhile fun c => c = '_' || Text.isAsciiDigit c
    let tail := rest.drop digits.length
    match Text.splitOn ':' whole with
    | [[]] =>
      (spellings "inf").contains rest
        || (body = s && (["nan", "NaN", "NAN"].any (·.toList = rest)
          || (isNumeral digits && isExponent tail)))
    | [w] => isNumeral w && isExponent tail
    | w :: ws => isNumeral w && ws.all isSixtieth && tail.isEmpty
    | [] => false

/-! ## Plain scalars -/

/-- The words for true and false. -/
def switchWords : List Text :=
  ["yes", "no", "true", "false", "on", "off"].flatMap spellings

def nullWords : List Text := ['~'] :: spellings "null"

/-- The kind of a plain scalar that is not empty and ends in no line break. -/
def ofWord (s : Text) : Kind :=
  if switchWords.contains s then .bool
  else if nullWords.contains s then .null
  else if s = ['<', '<'] then .merge
  else if s = ['='] then .standIn
  else if [['!'], ['&'], ['*']].contains s then .unknown
  else if isFloat s then .float
  else if isInt s then .int
  else if Moment.isPlain s then .moment
  else .text

/-- The kind of a plain scalar. A line break at its end makes no difference. -/
def ofPlain (s : Text) : Kind :=
  if s.isEmpty then .null
  else
    let word := if s.getLast? = some '\n' then s.dropLast else s
    if word.isEmpty then .text else ofWord word

end Kind

end TaskLine.Yaml
