import TaskLine.Markup.Tag
import TaskLine.Order
import TaskLine.Text.WordChar

/-!
# Attributes

Attributes are read straight from the text of a tag: a name at a word boundary,
an equals sign with nothing around it, and a value in double quotes. Names are
compared exactly, but for the `data-` family, which is recognised in any letter
case and keeps its names as they are written.
-/

namespace TaskLine.Markup

/-- A double-quoted value behind its opening quote. -/
def value? (s : Text) : Option Text := (Text.splitAt? '"' s).map Prod.fst

/-- The value of the first attribute of this name; `before` is the character in
front of the text. -/
def attributeFrom? (name : Text) (before : Option Char) : Text → Option Text
  | [] => none
  | c :: cs =>
    let here :=
      if Text.boundary before c then
        (Text.after? (name ++ "=\"".toList) (c :: cs)).bind value?
      else none
    match here with
    | some v => some v
    | none => attributeFrom? name (some c) cs

/-- The value of the first attribute of this name, in double quotes. -/
def attribute? (name s : Text) : Option Text := attributeFrom? name none s

/-! ## The data attributes -/

/-- The characters in the name of a data attribute: ASCII letters, digits and
the hyphen, and the four letters of other alphabets that are ASCII letters in
another case. -/
def isDataNameChar (c : Char) : Bool :=
  Text.isAsciiLetter c || Text.isAsciiDigit c || c == '-'
    || [0x130, 0x131, 0x17F, 0x212A].contains c.toNat

/-- A data attribute at the front of a text: its name without `data-`, its
value, and how many characters it takes. -/
def dataAttribute? (s : Text) : Option (Text × Text × Nat) :=
  (Text.afterFold? "data-".toList s).bind fun rest =>
    let name := rest.takeWhile isDataNameChar
    if name.isEmpty then none
    else
      (Text.after? "=\"".toList (rest.dropWhile isDataNameChar)).bind fun quoted =>
        (value? quoted).map fun v => (name, v, 5 + name.length + 2 + v.length + 1)

/-- The data attributes of a text in order; `before` is the character in front,
and the first `skip` characters belong to an attribute already read. -/
def dataAttributesFrom (before : Option Char) : Nat → Text → List (Text × Text)
  | _, [] => []
  | skip + 1, c :: cs => dataAttributesFrom (some c) skip cs
  | 0, c :: cs =>
    match if Text.boundary before c then dataAttribute? (c :: cs) else none with
    | some (name, v, n) => (name, v) :: dataAttributesFrom (some c) (n - 1) cs
    | none => dataAttributesFrom (some c) 0 cs

/-- The data attributes of a text, in order, names without `data-`. -/
def dataAttributes (s : Text) : List (Text × Text) := dataAttributesFrom none 0 s

/-- Properties by name, in order of the names. -/
abbrev Props := List (Text × Text)

namespace Props

/-- Set a property, over an earlier value. -/
def put (name v : Text) : Props → Props
  | [] => [(name, v)]
  | (n, w) :: rest =>
    if n = name then (name, v) :: rest
    else if Text.before name n then (name, v) :: (n, w) :: rest
    else (n, w) :: put name v rest

/-- Of pairs with one name the last counts. -/
def ofPairs (pairs : List (Text × Text)) : Props :=
  pairs.foldl (fun ps (n, v) => put n v ps) []

/-- The value of a property. -/
def get? (name : Text) (ps : Props) : Option Text := List.lookup name ps

end Props

/-! ## The content of an element -/

/-- What a closing `span` tag at the end of a text leaves, if there is one. -/
def beforeSpanEnd? (s : Text) : Option Text :=
  let body := s.take (s.length - 7)
  match Text.afterFold? "</span>".toList (s.drop (s.length - 7)) with
  | some [] => some body
  | _ => none

/-- What stands between an opening `span` tag at the front of a text and a
closing one at its end. Here the opening tag ends with its first `>`. -/
def spanContent? (s : Text) : Option Text :=
  (Text.afterFold? "<span".toList s).bind fun rest =>
    match rest with
    | [] => none
    | c :: _ =>
      if Text.isWordChar c then none
      else ((Text.splitAt? '>' rest).map Prod.snd).bind beforeSpanEnd?

/-- The content of a wrapper; a text that is no complete span is returned
whole. -/
def innerText (wrapper : Text) : Text := (spanContent? (Text.trim wrapper)).getD wrapper

end TaskLine.Markup
