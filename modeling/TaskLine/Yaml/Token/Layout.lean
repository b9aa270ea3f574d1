import TaskLine.Yaml.Token.Block
import TaskLine.Yaml.Token.Name
import TaskLine.Yaml.Token.Plain
import TaskLine.Yaml.Token.Quoted

/-!
# Layout

A document becomes tokens one after the other. Outside of brackets the columns
matter: a dash or a key that stands further right than what surrounds it begins a
collection, and what stands further left ends those that it leaves. A key can be
written without a mark of its own; only the colon behind it tells that it was one.
So every place where such a key may have begun is remembered, for as long as the
colon can still follow: on the same line, and not more than 1024 characters on.
-/

namespace TaskLine.Yaml

/-- A place where a key may have begun. -/
structure KeyPlace where
  /-- How many tokens stand in front of it. -/
  number : Nat
  /-- Whether nothing but a key can stand there. -/
  required : Bool
  place : Cursor

/-- A document that is being read. -/
structure Layout where
  place : Cursor
  /-- The tokens found, last one first. -/
  tokens : List Token := []
  /-- How many brackets are open. -/
  depth : Nat := 0
  /-- The columns of the open collections, innermost one first. -/
  columns : List Nat := []
  /-- Whether a key can begin here. -/
  mayBegin : Bool := true
  /-- Where a key may have begun, by the number of brackets open there. -/
  keys : List (Nat × KeyPlace) := []

namespace Layout

/-- The furthest that a key may be away from its colon. -/
def keyLimit : Nat := 1024

def emit (t : Token) (l : Layout) : Layout := { l with tokens := t :: l.tokens }

def moveTo (c : Cursor) (l : Layout) : Layout := { l with place := c }

/-- The least column of what belongs to the innermost collection without being a
part of its own. -/
def floor (l : Layout) : Nat :=
  match l.columns with
  | [] => 0
  | n :: _ => n + 1

/-! ## Collections -/

/-- Close the collections whose columns are not kept. -/
def close (keeps : Nat → Bool) (l : Layout) : Layout :=
  if l.depth = 0 then
    let kept := l.columns.dropWhile fun n => !keeps n
    { l with
      columns := kept
      tokens := List.replicate (l.columns.length - kept.length) .closeBlock ++ l.tokens }
  else l

/-- Whether a column lies further right than the innermost collection. -/
def isDeeper (column : Nat) (l : Layout) : Bool := l.floor ≤ column

/-- Open a collection in a column, unless it is open there already. -/
def openAt (shape : Shape) (column : Nat) (l : Layout) : Layout :=
  if l.isDeeper column then
    emit (.openBlock shape) { l with columns := column :: l.columns }
  else l

/-! ## Keys -/

/-- Forget the places whose colon cannot follow any more; fails if one of them had to
be a key. -/
def dropStale? (l : Layout) : Option Layout :=
  let isStale := fun (k : Nat × KeyPlace) =>
    k.2.place.line != l.place.line || keyLimit < l.place.index - k.2.place.index
  if l.keys.any fun k => isStale k && k.2.required then none
  else some { l with keys := l.keys.filter fun k => !isStale k }

/-- Forget the place within the innermost brackets; fails if it had to be a key. -/
def dropKey? (l : Layout) : Option Layout :=
  match l.keys.lookup l.depth with
  | some k =>
    if k.required then none
    else some { l with keys := l.keys.filter fun k => k.1 != l.depth }
  | none => some l

/-- Remember that a key may begin here. -/
def noteKey? (l : Layout) : Option Layout :=
  if l.mayBegin then
    l.dropKey?.map fun l =>
      let required := l.depth = 0 && l.columns.head? = some l.place.column
      { l with keys := (l.depth, ⟨l.tokens.length, required, l.place⟩) :: l.keys }
  else some l

/-- Put tokens behind the first `number` ones, the last of them first. -/
def insertAt (number : Nat) (added : List Token) (l : Layout) : Layout :=
  let behind := l.tokens.length - number
  { l with tokens := l.tokens.take behind ++ added ++ l.tokens.drop behind }

/-! ## Tokens -/

/-- A mark begins or ends a document. -/
def readMark? (t : Token) (l : Layout) : Option Layout :=
  (l.close fun _ => false).dropKey?.map fun l =>
    emit t { l with mayBegin := false, place := l.place.skip 3 }

def readDirectiveLine? (l : Layout) : Option Layout :=
  (l.close fun _ => false).dropKey?.bind fun l =>
    (readDirective? l.place).map fun (d, c) =>
      emit (.directive d) { l with mayBegin := false, place := c }

def openBracket? (shape : Shape) (l : Layout) : Option Layout :=
  l.noteKey?.map fun l =>
    emit (.openFlow shape)
      { l with depth := l.depth + 1, mayBegin := true, place := l.place.next }

/-- A bracket that closes none fails. -/
def closeBracket? (shape : Shape) (l : Layout) : Option Layout :=
  if l.depth = 0 then none
  else
    l.dropKey?.map fun l =>
      emit (.closeFlow shape)
        { l with depth := l.depth - 1, mayBegin := false, place := l.place.next }

def readComma? (l : Layout) : Option Layout :=
  l.dropKey?.map fun l => emit .comma { l with mayBegin := true, place := l.place.next }

/-- A collection may begin or go on here; inside brackets the layout does not
matter. -/
def enter? (shape : Shape) (l : Layout) : Option Layout :=
  if l.depth != 0 then some l
  else if l.mayBegin then some (l.openAt shape l.place.column)
  else none

/-- The dash before an item. -/
def readEntry? (l : Layout) : Option Layout :=
  (l.enter? .sequence).bind fun l =>
    l.dropKey?.map fun l => emit .entry { l with mayBegin := true, place := l.place.next }

/-- The question mark before a key. -/
def readKey? (l : Layout) : Option Layout :=
  (l.enter? .mapping).bind fun l =>
    l.dropKey?.map fun l => emit .key { l with mayBegin := l.depth = 0, place := l.place.next }

/-- The colon before a value. If a key may have begun within reach, then it was one. -/
def readValue? (l : Layout) : Option Layout :=
  match l.keys.lookup l.depth with
  | some k =>
    let l := { l with keys := l.keys.filter fun k => k.1 != l.depth }
    let column := k.place.column
    let l :=
      if l.depth = 0 && l.isDeeper column then
        insertAt k.number [.key, .openBlock .mapping] { l with columns := column :: l.columns }
      else l.insertAt k.number [.key]
    some (emit .value { l with mayBegin := false, place := l.place.next })
  | none =>
    (l.enter? .mapping).map fun l =>
      emit .value { l with mayBegin := l.depth = 0, place := l.place.next }

/-- A token that may begin a key. -/
def readWord? (read : Cursor → Option (Token × Cursor)) (l : Layout) : Option Layout :=
  l.noteKey?.bind fun l =>
    (read l.place).map fun (t, c) => emit t { l with mayBegin := false, place := c }

/-- A name behind its mark. -/
def readNamed (make : Text → Token) (c : Cursor) : Option (Token × Cursor) :=
  (readName? c.next).map fun (name, c) => (make name, c)

def readQuotedToken (c : Cursor) : Option (Token × Cursor) :=
  (readQuoted? c).map fun (w, c) => (.scalar w false, c)

/-- A key can begin behind a block, which ends at the start of a line. -/
def readBlockToken? (l : Layout) : Option Layout :=
  l.dropKey?.bind fun l =>
    (readBlock? l.floor l.place).map fun (s, c) =>
      emit (.scalar (.text s) false) { l with mayBegin := true, place := c }

/-- A key can begin behind a plain scalar if a line ended there. -/
def readPlainToken? (l : Layout) : Option Layout :=
  l.noteKey?.map fun l =>
    let word := plainAt (l.depth != 0) l.floor l.place
    emit (.scalar (.text word.text) true) { l with mayBegin := word.ended, place := word.place }

/-- Read the token that begins with the next character. -/
def readToken? (l : Layout) : Option Layout :=
  let c := l.place
  match c.rest with
  | [] => none
  | d :: ds =>
    let inBrackets := l.depth != 0
    let alone := endsWord ds.head?
    if d = '%' && c.column = 0 then l.readDirectiveLine?
    else if c.isAtMark '-' then l.readMark? .start
    else if c.isAtMark '.' then l.readMark? .finish
    else if d = '[' then l.openBracket? .sequence
    else if d = '\x7b' then l.openBracket? .mapping
    else if d = ']' then l.closeBracket? .sequence
    else if d = '\x7d' then l.closeBracket? .mapping
    else if d = ',' then l.readComma?
    else if d = '-' && alone then l.readEntry?
    else if d = '?' && (inBrackets || alone) then l.readKey?
    else if d = ':' && (inBrackets || alone) then l.readValue?
    else if d = '*' then l.readWord? (readNamed .alias)
    else if d = '&' then l.readWord? (readNamed .anchor)
    else if d = '!' then l.readWord? readTag?
    else if (d = '|' || d = '>') && !inBrackets then l.readBlockToken?
    else if d = '\'' || d = '"' then l.readWord? readQuotedToken
    else if startsPlain inBrackets c.rest then l.readPlainToken?
    else none

/-! ## Documents -/

/-- Leave out spaces, comments and line breaks. Outside of brackets a key can begin
on a new line. -/
def skipSpace : Nat → Layout → Layout
  | 0, l => l
  | n + 1, l =>
    let c := l.place.skipComment
    match c.lineBreak? with
    | some (_, c) => skipSpace n { l with place := c, mayBegin := l.mayBegin || l.depth = 0 }
    | none => { l with place := c }

/-- Read tokens up to the end. -/
def readAll? : Nat → Layout → Option Layout
  | 0, _ => none
  | n + 1, l =>
    (l.skipSpace (l.place.rest.length + 1)).dropStale?.bind fun l =>
      let l := l.close fun column => column ≤ l.place.column
      if l.place.isAtEnd then
        if l.depth = 0 then (l.close fun _ => false).dropKey? else none
      else l.readToken?.bind (readAll? n)

end Layout

/-- The tokens of a text; nothing if it is no document. Every token takes at least
one character. -/
def Token.ofText? (s : Text) : Option (List Token) :=
  if s.all isAllowed then
    (Layout.readAll? (s.length + 1) { place := .ofText s }).map fun l => l.tokens.reverse
  else none

end TaskLine.Yaml
