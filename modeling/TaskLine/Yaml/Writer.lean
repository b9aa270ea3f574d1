import TaskLine.Binary64.Decimal
import TaskLine.Yaml.Document
import TaskLine.Yaml.Style

/-!
# Writing documents

Every member and every item is written on a line of its own, members sorted by key.
A value that occurs more than once is written where it is met first, with an anchor,
and by an alias wherever it is met again; the anchors are numbered in the order in
which values are met for the second time.
-/

namespace TaskLine.Yaml

/-! ## Scalars -/

/-- A decimal: with its point in place from a ten thousandth up to ten to the
sixteenth, otherwise with an exponent of at least two digits. -/
def decimalText (digits : Nat) (power : Int) : Text :=
  let shown := Text.ofNat digits
  let ds := (shown.reverse.dropWhile (· = '0')).reverse
  let point := (shown.length : Int) + power
  let fraction := fun (t : Text) => '.' :: if t.isEmpty then ['0'] else t
  if -4 < point && point ≤ 16 then
    let padded := List.replicate (1 - point).toNat '0' ++ ds
      ++ List.replicate (point - ds.length).toNat '0'
    let whole := (max point 1).toNat
    padded.take whole ++ fraction (padded.drop whole)
  else
    let exponent := Text.ofNat (point - 1).natAbs
    ds.take 1 ++ fraction (ds.drop 1) ++ ['e', if point < 1 then '-' else '+']
      ++ List.replicate (2 - exponent.length) '0' ++ exponent

def floatText (x : SignedFloat) : Text :=
  let sign := if x.negative then ['-'] else []
  match x.size with
  | .infinite _ => sign ++ ".inf".toList
  | .nan => ".nan".toList
  | .finite m e =>
    if m = 0 then sign ++ "0.0".toList
    else
      let (digits, power) := Binary64.shortest m.natAbs e
      sign ++ decimalText digits power

/-- How a scalar is written. -/
structure ScalarForm where
  /-- The short tag of its kind. It is written only if the kind is not to be seen. -/
  tag : Text
  codes : List Nat
  /-- Whether a plain text of that content has this kind. -/
  resolves : Bool := true
  /-- Whether it is a block with its tag. -/
  block : Bool := false

namespace ScalarForm

/-- The content as a text; what is no character counts as one that needs double
quotes. -/
def text (f : ScalarForm) : Text := f.codes.map Char.ofNat

def ofText (tag : String) (s : Text) : ScalarForm :=
  { tag := tag.toList, codes := s.map Char.toNat }

/-- The form of a value; objects have none. -/
def ofValue : Value → ScalarForm
  | .null => ofText "!!null" "null".toList
  | .bool true => ofText "!!bool" "true".toList
  | .bool false => ofText "!!bool" "false".toList
  | .int n => ofText "!!int" (Text.ofInt n)
  | .float x => ofText "!!float" (floatText x)
  | .moment _ m => ofText "!!timestamp" m.text
  | .text s => { ofText "!!str" s with resolves := Kind.ofPlain s = .text }
  | .codes ns => { tag := "!!str".toList, codes := ns, resolves := false }
  | .bytes bs => { ofText "!!binary" (Base64.encode bs) with resolves := false, block := true }
  | .object _ => ofText "!!null" []

/-- Whether a key of this form can be written without a mark of its own, with an
anchor of a given length. -/
def isSimpleKey (anchorLength : Nat) (f : ScalarForm) : Bool :=
  anchorLength + f.tag.length + f.codes.length < 128 && !f.codes.isEmpty && !isMultiline f.text

/-- Write a scalar. `column` is that of further lines; a simple key has none. -/
def write (column : Option Nat) (f : ScalarForm) (p : Page) : Page :=
  if f.block then
    let p := p.mark f.tag
    if f.codes.isEmpty then writeDouble column [] p
    else writeBlock (column.getD 0) ((Text.splitOn '\n' f.text).dropLast) p
  else if f.resolves && allowsPlain f.text then writePlain column f.text p
  else if allowsSingle f.text then writeSingle column f.text p
  else writeDouble column f.codes p

end ScalarForm

/-! ## Anchors -/

/-- The values that were met, and those of them that were met again. -/
structure Meetings where
  met : List Nat := []
  /-- First one first. -/
  again : List Nat := []

/-- Meet a value and all that it holds. Nothing within a value is met a second time
because the value is. -/
def Meetings.meet (objects : Objects) : (steps : Nat) → Value → Meetings → Meetings
  | 0, _, m => m
  | n + 1, v, m =>
    match v.id? with
    | none => m
    | some id =>
      if m.met.contains id then
        if m.again.contains id then m else { m with again := m.again ++ [id] }
      else
        let parts := ((objects.lookup id).map Object.parts).getD []
        parts.foldl (fun m v => meet objects n v m) { m with met := id :: m.met }

/-- The name of the anchor with a number: at least three digits. -/
def anchorName (n : Nat) : Text := "id".toList ++ Moment.padded 3 n

/-! ## Documents -/

/-- A page that is being written. -/
structure Writing where
  page : Page := {}
  /-- The values with anchors, first one first. -/
  anchored : List Nat
  /-- Those of them that were written. -/
  written : List Nat := []

namespace Writing

def onPage (f : Page → Page) (w : Writing) : Writing := { w with page := f w.page }

/-- The name of the anchor of a value. -/
def anchor? (w : Writing) (v : Value) : Option Text :=
  v.id?.bind fun id => (w.anchored.idxOf? id).map fun i => anchorName (i + 1)

/-- Whether a value was written before. -/
def isWritten (w : Writing) (v : Value) : Bool :=
  match v.id? with
  | some id => w.written.contains id
  | none => false

/-- Where a value is written. -/
structure Place where
  /-- The column of the collection around it. -/
  column : Option Nat
  /-- Whether it belongs to a member of a mapping. -/
  inMapping : Bool := false
  /-- Whether it is a key without a mark of its own. -/
  isSimpleKey : Bool := false

/-- The column of a collection within a place. -/
def Place.deeper (place : Place) : Nat :=
  match place.column with
  | none => 0
  | some n => n + 2

/-- The column of further lines of a scalar. -/
def Place.further (place : Place) : Option Nat :=
  if place.isSimpleKey then none else some (place.column.getD 0 + 2)

/-- Whether a key is written without a mark of its own. -/
def isSimple (w : Writing) (key : Value) : Bool :=
  w.isWritten key
    || (ScalarForm.ofValue key).isSimpleKey (((w.anchor? key).map List.length).getD 0)

/-- Write a value. A list behind the key of a member stands in the column of the key. -/
def write (objects : Objects) : (steps : Nat) → Place → Value → Writing → Writing
  | 0, _, _, w => w
  | n + 1, place, v, w =>
    let anchor := w.anchor? v
    if w.isWritten v then w.onPage (·.mark ('*' :: anchor.getD []))
    else
      let w := match anchor, v.id? with
        | some name, some id =>
          { w.onPage (·.mark ('&' :: name)) with written := id :: w.written }
        | _, _ => w
      match v with
      | .object id =>
        match objects.lookup id with
        | none => w
        | some (.list []) => w.onPage fun p => (p.mark ['[']).join [']']
        | some (.list items) =>
          let column :=
            if place.inMapping && !w.page.bare then place.column.getD 0 else place.deeper
          items.foldl (fun w item =>
            write objects n { column } item (w.onPage fun p => (p.indent column).layoutMark '-')) w
        | some o =>
          let w := match o with
            | .set _ => w.onPage (·.mark "!!set".toList)
            | _ => w
          let column := place.deeper
          if o.members.isEmpty then w.onPage fun p => (p.mark ['\x7b']).join ['\x7d']
          else
            o.members.foldl (fun w (key, value) =>
              let w := w.onPage (·.indent column)
              let isSimpleKey := w.isSimple key
              let w := if isSimpleKey then w else w.onPage (·.layoutMark '?')
              let w := write objects n { column, inMapping := true, isSimpleKey } key w
              let w :=
                if isSimpleKey then w.onPage (·.join [':'])
                else w.onPage fun p => (p.indent column).layoutMark ':'
              write objects n { column, inMapping := true } value w) w
      | v => w.onPage ((ScalarForm.ofValue v).write place.further)

end Writing

/-- The written form of a document. -/
def Document.text (d : Document) : Text :=
  let steps := d.objects.length + 2
  let meetings := Meetings.meet d.objects steps d.root {}
  let w := Writing.write d.objects steps { column := none } d.root { anchored := meetings.again }
  (w.page.indent 0).text

end TaskLine.Yaml
