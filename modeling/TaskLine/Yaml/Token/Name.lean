import TaskLine.Text.Digits
import TaskLine.Text.Utf8
import TaskLine.Yaml.Cursor
import TaskLine.Yaml.Token.Basic

/-!
# Anchors, tags and directives

An anchor names a node, an alias stands for the node of that name. A tag says what
kind a node is of; its front can be a handle that a directive has given a meaning.
Bytes that cannot stand in a tag are written as a percent sign and two digits.
-/

namespace TaskLine.Yaml

/-- Read the name of an anchor or alias. -/
def readName? (c : Cursor) : Option (Text × Cursor) :=
  let (name, c) := c.takeWhile isNameChar
  let closed := endsWord c.peek || match c.peek with
    | some d => "?:,]\x7d%@`".toList.contains d
    | none => false
  if name.isEmpty || !closed then none else some (name, c)

/-! ## Tags -/

/-- Whether a character may stand in a tag; a percent sign begins an escape. -/
def isTagChar (c : Char) : Bool :=
  Text.isAsciiLetter c || Text.isAsciiDigit c || "-;/?:@&=+$,_.!~*'()[]".toList.contains c

/-- The bytes of the escapes that come next. -/
def tagBytes? : Nat → Text → Option (List Nat × Text)
  | n + 1, '%' :: a :: b :: cs => do
    let high ← Text.hexValue? a
    let low ← Text.hexValue? b
    (tagBytes? n cs).map fun r => ((16 * high + low) :: r.1, r.2)
  | _, '%' :: _ => none
  | _, cs => some ([], cs)

/-- Read a part of a tag, which is not empty. -/
def tagText? : Nat → Text → Option (Text × Text)
  | 0, _ => none
  | n + 1, s =>
    let plain := s.takeWhile isTagChar
    match s.drop plain.length with
    | '%' :: cs => do
      let (bytes, rest) ← tagBytes? (cs.length + 1) ('%' :: cs)
      match Utf8.decode bytes with
      | .error _ => none
      | .ok decoded =>
        let (tail, rest) := (tagText? n rest).getD ([], rest)
        return (plain ++ decoded ++ tail, rest)
    | rest => if plain.isEmpty then none else some (plain, rest)

def readTagText? (c : Cursor) : Option (Text × Cursor) :=
  (tagText? (c.rest.length + 1) c.rest).map fun (s, rest) =>
    (s, c.skip (c.rest.length - rest.length))

/-- Read a handle: an exclamation mark, or a name between two of them. -/
def readHandle? (c : Cursor) : Option (Text × Cursor) :=
  match c.rest with
  | '!' :: ' ' :: _ => some (['!'], c.next)
  | '!' :: _ =>
    let (name, behind) := c.next.takeWhile isNameChar
    if behind.peek = some '!' then some ('!' :: name ++ ['!'], behind.next) else none
  | _ => none

/-- Read a tag, its exclamation mark included. A tag in angle brackets, and the mark
alone, have no handle. -/
def readTag? (c : Cursor) : Option (Token × Cursor) :=
  let behind := c.next
  let found : Option (Token × Cursor) :=
    if behind.peek = some '<' then
      (readTagText? behind.next).bind fun (s, c) =>
        if c.peek = some '>' then some (.tag none s, c.next) else none
    else if endsWord behind.peek then some (.tag none ['!'], behind)
    else
      let word := behind.rest.takeWhile fun d => !endsPart (some d)
      let handle := if word.contains '!' then readHandle? c else some (['!'], behind)
      handle.bind fun (h, c) => (readTagText? c).map fun (s, c) => (.tag (some h) s, c)
  found.bind fun r => if endsPart r.2.peek then some r else none

/-! ## Directives -/

def skipSpaces (c : Cursor) : Cursor := c.skipWhile (· = ' ')

/-- Read a number of a version. -/
def readVersionPart? (c : Cursor) : Option (Nat × Cursor) :=
  let (digits, c) := c.takeWhile Text.isAsciiDigit
  match Text.parseNat digits with
  | .ok n => some (n, c)
  | .error _ => none

/-- Read what follows the name of a directive. -/
def readDirectiveBody? (name : Text) (c : Cursor) : Option (Directive × Cursor) :=
  if name = "YAML".toList then do
    let (major, c) ← readVersionPart? (skipSpaces c)
    let (_, c) ← if c.peek = some '.' then readVersionPart? c.next else none
    if endsPart c.peek then return (.version major, c) else none
  else if name = "TAG".toList then do
    let (handle, c) ← readHandle? (skipSpaces c)
    let (short, c) ← if c.peek = some ' ' then readTagText? (skipSpaces c) else none
    if endsPart c.peek then return (.handle handle short, c) else none
  else some (.unknown, c.skipWhile fun d => !isBreak d)

/-- Read a directive, its percent sign included, with the line that it stands on. -/
def readDirective? (c : Cursor) : Option (Directive × Cursor) := do
  let (name, c) := c.next.takeWhile isNameChar
  if name.isEmpty || !endsPart c.peek then none
  else
    let (d, c) ← readDirectiveBody? name c
    let c ← c.skipLine?
    return (d, c)

end TaskLine.Yaml
