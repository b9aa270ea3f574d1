import TaskLine.Yaml.Kind
import TaskLine.Yaml.Token.Layout

/-!
# Nodes

The tokens of a document are read as nodes: scalars, lists and mappings. Nodes are
kept in a row and refer to each other by their numbers, so that an alias is the
number of the node that it stands for, and a node can even stand within itself. A
part that is left out is an empty scalar.
-/

namespace TaskLine.Yaml

/-- What a node consists of; the parts are given by their numbers. -/
inductive Content where
  | scalar (words : Words)
  | sequence (items : List Nat)
  | mapping (pairs : List (Nat × Nat))
deriving Repr

structure Node where
  kind : Kind
  content : Content
deriving Repr

/-- Nodes in the order in which they were begun. -/
abbrev Nodes := Array Node

/-- The tokens that are left, and what was made of those before. -/
structure Composing where
  tokens : List Token
  nodes : Nodes := #[]
  anchors : List (Text × Nat) := []
  /-- The handles of tags and what they stand for. -/
  handles : List (Text × Text) := []

/-- A step that reads tokens, or fails. -/
abbrev Compose := StateT Composing Option

namespace Compose

/-- How deep lists and mappings can stand within each other. -/
def depthLimit : Nat := 480

/-- The handles that every document has. -/
def defaultHandles : List (Text × Text) :=
  [(['!'], ['!']), (['!', '!'], Kind.family)]

/-! ## Tokens -/

def peek : Compose (Option Token) := do return (← get).tokens.head?

def advance : Compose Unit := modify fun s => { s with tokens := s.tokens.drop 1 }

/-- Pass a token if it comes next, and tell whether it did. -/
def pass (t : Token) : Compose Bool := do
  if (← peek) = some t then
    advance
    return true
  else return false

/-- Pass a token that has to come next. -/
def expect (t : Token) : Compose Unit := do
  if ← pass t then pure () else failure

/-! ## Nodes -/

/-- Begin a node; it gets the next number. -/
def add (anchor : Option Text) (node : Node) : Compose Nat := do
  let s ← get
  let id := s.nodes.size
  set { s with
    nodes := s.nodes.push node
    anchors := match anchor with
      | some name => (name, id) :: s.anchors
      | none => s.anchors }
  return id

/-- Give a node its content. -/
def complete (id : Nat) (content : Content) : Compose Unit :=
  modify fun s => { s with nodes := s.nodes.modify id fun n => { n with content } }

/-- A part that is left out. -/
def blank : Compose Nat := add none { kind := .null, content := .scalar (.text []) }

/-- The whole tag that two parts stand for. -/
def tagOf (handle : Option Text) (suffix : Text) : Compose Text := do
  match handle with
  | none => return suffix
  | some h =>
    match (← get).handles.lookup h with
    | some short => return short ++ suffix
    | none => failure

/-- What stands in front of a node. -/
structure Properties where
  anchor : Option Text := none
  tag : Option Text := none

/-- Read an anchor that comes next, if one does. A name is given once only. -/
def readAnchor : Compose (Option Text) := do
  match ← peek with
  | some (.anchor name) =>
    advance
    if ((← get).anchors.lookup name).isSome then failure else return some name
  | _ => return none

/-- Read a tag that comes next, if one does. -/
def readTag : Compose (Option Text) := do
  match ← peek with
  | some (.tag handle suffix) =>
    advance
    return some (← tagOf handle suffix)
  | _ => return none

/-- Read an anchor and a tag in any order. -/
def properties : Compose Properties := do
  match ← readAnchor with
  | some anchor => return { anchor := some anchor, tag := ← readTag }
  | none =>
    match ← readTag with
    | some tag => return { anchor := ← readAnchor, tag := some tag }
    | none => return {}

/-- The kind of a scalar. An exclamation mark as tag asks for the kind that the plain
text has. -/
def Properties.scalarKind (p : Properties) (words : Words) (plain : Bool) : Kind :=
  let own := match words with
    | .text s => Kind.ofPlain s
    | .codes _ => .text
  match p.tag with
  | none => if plain then own else .text
  | some ['!'] => own
  | some tag => .ofTag tag

/-- The kind of a collection. -/
def Properties.shapeKind (p : Properties) (shape : Shape) : Kind :=
  match p.tag with
  | none | some ['!'] =>
    match shape with
    | .sequence => .sequence
    | .mapping => .mapping
  | some tag => .ofTag tag

/-- Read a part unless one of some tokens shows that it is left out. -/
def partUnless (ends : List Token) (read : Compose Nat) : Compose Nat := do
  match ← peek with
  | some t => if ends.contains t then blank else read
  | none => failure

/-! ## Grammar -/

/-- What comes before the next item in brackets: nothing before the first one, a comma
before the others. Tells whether there is an item at all. -/
def separate (first : Bool) (closing : Token) : Compose Bool := do
  if ← pass closing then return false
  else
    if !first then expect .comma
    return !(← pass closing)

mutual

/-- Read a node. Outside of brackets a collection may begin by its layout; behind a
key, dashes in the column of the key begin a list. -/
def node (inBlock behindKey : Bool) (depth : Nat) : Nat → Compose Nat
  | 0 => failure
  | n + 1 => do
    match ← peek with
    | some (.alias name) =>
      advance
      match (← get).anchors.lookup name with
      | some id => return id
      | none => failure
    | _ =>
      let p ← properties
      let collection := fun (shape : Shape) (read : Compose Content) => do
        if depth = 0 then failure
        let id ← add p.anchor { kind := p.shapeKind shape, content := .sequence [] }
        complete id (← read)
        return id
      match ← peek with
      | some (.scalar words plain) =>
        advance
        add p.anchor { kind := p.scalarKind words plain, content := .scalar words }
      | some (.openFlow .sequence) =>
        advance
        collection .sequence (.sequence <$> flowItems true (depth - 1) n)
      | some (.openFlow .mapping) =>
        advance
        collection .mapping (.mapping <$> flowPairs true (depth - 1) n)
      | t =>
        if behindKey && t = some .entry then
          collection .sequence (.sequence <$> looseItems (depth - 1) n)
        else if inBlock && t = some (.openBlock .sequence) then
          advance
          collection .sequence (.sequence <$> blockItems (depth - 1) n)
        else if inBlock && t = some (.openBlock .mapping) then
          advance
          collection .mapping (.mapping <$> blockPairs (depth - 1) n)
        else if p.anchor.isSome || p.tag.isSome then
          add p.anchor { kind := p.scalarKind (.text []) true, content := .scalar (.text []) }
        else failure
termination_by structural n => n

/-- The items of a list outside of brackets, up to its end. -/
def blockItems (depth : Nat) : Nat → Compose (List Nat)
  | 0 => failure
  | n + 1 => do
    if ← pass .entry then
      let item ← partUnless [.entry, .closeBlock] (node true false depth n)
      return item :: (← blockItems depth n)
    else
      expect .closeBlock
      return []
termination_by structural n => n

/-- The items of a list in the column of its key. -/
def looseItems (depth : Nat) : Nat → Compose (List Nat)
  | 0 => failure
  | n + 1 => do
    if ← pass .entry then
      let item ← partUnless [.entry, .key, .value, .closeBlock] (node true false depth n)
      return item :: (← looseItems depth n)
    else return []
termination_by structural n => n

/-- The members of a mapping outside of brackets, up to its end. -/
def blockPairs (depth : Nat) : Nat → Compose (List (Nat × Nat))
  | 0 => failure
  | n + 1 => do
    if ← pass .key then
      let part := partUnless [.key, .value, .closeBlock] (node true true depth n)
      let key ← part
      let value ← if ← pass .value then part else blank
      return (key, value) :: (← blockPairs depth n)
    else
      expect .closeBlock
      return []
termination_by structural n => n

/-- The items of a list in brackets. A member among them is a mapping of its own. -/
def flowItems (first : Bool) (depth : Nat) : Nat → Compose (List Nat)
  | 0 => failure
  | n + 1 => do
    if ← separate first (.closeFlow .sequence) then
      let item ← if ← pass .key then do
          if depth = 0 then failure
          let id ← add none { kind := .mapping, content := .mapping [] }
          let key ← partUnless [.value, .comma, .closeFlow .sequence] (node false false depth n)
          let value ← if ← pass .value then
              partUnless [.comma, .closeFlow .sequence] (node false false depth n)
            else blank
          complete id (.mapping [(key, value)])
          pure id
        else node false false depth n
      return item :: (← flowItems false depth n)
    else return []
termination_by structural n => n

/-- The members of a mapping in brackets. -/
def flowPairs (first : Bool) (depth : Nat) : Nat → Compose (List (Nat × Nat))
  | 0 => failure
  | n + 1 => do
    if ← separate first (.closeFlow .mapping) then
      if ← pass .key then
        let key ← partUnless [.value, .comma, .closeFlow .mapping] (node false false depth n)
        let value ← if ← pass .value then
            partUnless [.comma, .closeFlow .mapping] (node false false depth n)
          else blank
        return (key, value) :: (← flowPairs false depth n)
      else
        let key ← node false false depth n
        let value ← blank
        return (key, value) :: (← flowPairs false depth n)
    else return []
termination_by structural n => n

end

/-! ## Documents -/

/-- Read directives: only one version, which begins with one, and no handle twice. -/
def directives (versioned : Bool) : List (Text × Text) → Nat → Compose (List (Text × Text))
  | _, 0 => failure
  | handles, n + 1 => do
    match ← peek with
    | some (.directive d) =>
      advance
      match d with
      | .version major =>
        if versioned || major != 1 then failure else directives true handles n
      | .handle name short =>
        if (handles.lookup name).isSome then failure
        else directives versioned ((name, short) :: handles) n
      | .unknown => directives versioned handles n
    | _ => return handles

/-- Pass any number of end marks. -/
def passEnds : Nat → Compose Unit
  | 0 => pure ()
  | n + 1 => do
    if ← pass .finish then passEnds n

/-- Read the only document. There may be none at all. -/
def document : Compose (Option Nat) := do
  let n := 2 * (← get).tokens.length + 2
  let begins := fun (t : Token) => match t with
    | .directive _ | .start => true
    | _ => false
  match ← peek with
  | none => return none
  | some t =>
    let root ← if begins t then do
        let handles ← directives false [] n
        modify fun s => { s with handles := handles ++ defaultHandles }
        expect .start
        match ← peek with
        | none => blank
        | some t => if begins t || t = .finish then blank else node true false depthLimit n
      else do
        modify fun s => { s with handles := defaultHandles }
        node true false depthLimit n
    passEnds n
    match ← peek with
    | none => return some root
    | some _ => failure

end Compose

/-- The nodes of a text, and the number of the node that is the document, if there is
one; nothing if the text cannot be read. -/
def Nodes.ofText? (s : Text) : Option (Nodes × Option Nat) :=
  (Token.ofText? s).bind fun tokens =>
    (Compose.document.run { tokens }).map fun (root, s) => (s.nodes, root)

end TaskLine.Yaml
