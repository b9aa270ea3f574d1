import TaskLine.Yaml.Merge
import TaskLine.Yaml.Value

/-!
# Documents

The values that the nodes of a document stand for. Objects are made one after the
other, in the order in which they are met; an object has the number of its node, so
that a node which occurs twice is one object. A document that is broken anywhere
cannot be read at all.
-/

namespace TaskLine.Yaml

/-- What a text says: a value, and the objects in it. -/
structure Document where
  root : Value := .null
  objects : Objects := []
deriving Repr

/-- The nodes of a document while its values are made. -/
structure Making where
  nodes : Nodes
  /-- The nodes of the objects that were met. -/
  met : List Nat := []
  /-- Those of them that are still to be made, first one first. -/
  waiting : List Nat := []
  objects : Objects := []
  /-- The number of the next object without a node. -/
  nextId : Nat

/-- A step that makes values, or fails. -/
abbrev Make := StateT Making Option

namespace Make

/-- The content of a scalar. A mapping can hold one that stands for it. -/
def words? (ns : Nodes) : (steps : Nat) → Nat → Option Words
  | 0, _ => none
  | n + 1, id =>
    match ns[id]? with
    | some ⟨_, .scalar w⟩ => some w
    | some ⟨_, .mapping ps⟩ =>
      (ps.find? fun p => ns.kindOf p.1 = .standIn).bind fun p => words? ns n p.2
    | _ => none

/-- The content of a scalar of some kind. Nothing stands for a moment. -/
def wordsOf? (ns : Nodes) (kind : Kind) (id : Nat) : Option Words :=
  words? ns (if kind = .moment then 1 else ns.size + 1) id

/-- The object of a node, which is to be made. -/
def meet (id : Nat) : Make Value := do
  let s ← get
  if !s.met.contains id then
    set { s with met := id :: s.met, waiting := s.waiting ++ [id] }
  return .object id

/-- The value of a node. -/
def value (id : Nat) : Make Value := do
  let ns := (← get).nodes
  match ns.kindOf id with
  | .sequence | .mapping | .pairs | .set => meet id
  | kind =>
    match (wordsOf? ns kind id).bind (Value.ofScalar? kind id) with
    | some v => return v
    | none => failure

/-- The value of a key; objects are no keys. -/
def key (id : Nat) : Make Value := do
  match ← value id with
  | .object _ => failure
  | v => return v

/-- The members of a mapping, with those that it takes in from others. -/
def entries (id : Nat) : Make (List (Value × Value)) := do
  let s ← get
  match s.nodes.merge? id [] (s.nodes.pairCount + 1) with
  | none => failure
  | some nodes =>
    set { s with nodes }
    let ps ← (nodes.pairs? id : Make _)
    return Value.entriesOf (← ps.mapM fun p => do return (← key p.1, ← value p.2))

/-- An item of a list of pairs: a mapping of one member, as a list of two values. -/
def pair (id : Nat) : Make Value := do
  match (← get).nodes.pairs? id with
  | some [(k, v)] =>
    let items := [← value k, ← value v]
    let s ← get
    set { s with
      nextId := s.nextId + 1
      objects := (s.nextId, .list items) :: s.objects }
    return .object s.nextId
  | _ => failure

/-- The object of a node. -/
def object (id : Nat) : Make Object := do
  let ns := (← get).nodes
  let items? : Option (List Nat) := match ns[id]? with
    | some ⟨_, .sequence items⟩ => some items
    | _ => none
  match ns.kindOf id, items? with
  | .sequence, some items => return .list (← items.mapM value)
  | .pairs, some items => return .list (← items.mapM pair)
  | .mapping, none => return .mapping (← entries id)
  | .set, none => return .set ((← entries id).map Prod.fst)
  | _, _ => failure

/-- Make all objects that are waiting. Each node is made once. -/
def objects : (steps : Nat) → Make Unit
  | 0 => pure ()
  | n + 1 => do
    let s ← get
    match s.waiting with
    | [] => pure ()
    | id :: waiting =>
      set { s with waiting }
      let o ← object id
      modify fun s => { s with objects := (id, o) :: s.objects }
      objects n

end Make

/-- The values of nodes, if there is a document in them. -/
def Document.ofNodes? (ns : Nodes) (root : Option Nat) : Option Document :=
  match root with
  | none => some {}
  | some id =>
    let make : Make Value := do
      let v ← Make.value id
      Make.objects (ns.size + 1)
      return v
    (make.run { nodes := ns, nextId := ns.size }).map fun (root, s) =>
      { root, objects := s.objects }

/-- What a text says; nothing if it cannot be read. -/
def Document.ofText? (s : Text) : Option Document :=
  (Nodes.ofText? s).bind fun (ns, root) => Document.ofNodes? ns root

end TaskLine.Yaml
