import TaskLine.Yaml.Node

/-!
# Merged mappings

A mapping can take in the members of other mappings, by a key of its own for that.
They come before its own members, so that those win. A mapping that was merged
holds no such key any more, which is why merging ends even where mappings take in
each other.
-/

namespace TaskLine.Yaml.Nodes

def kindOf (ns : Nodes) (id : Nat) : Kind :=
  match ns[id]? with
  | some n => n.kind
  | none => .unknown

/-- The members of a mapping. -/
def pairs? (ns : Nodes) (id : Nat) : Option (List (Nat × Nat)) :=
  match ns[id]? with
  | some ⟨_, .mapping ps⟩ => some ps
  | _ => none

def setPairs (id : Nat) (ps : List (Nat × Nat)) (ns : Nodes) : Nodes :=
  ns.modify id fun n => { n with content := .mapping ps }

/-- A key that would stand for its mapping is a text like any other. -/
def freeKey (ns : Nodes) (id : Nat) : Nodes :=
  if ns.kindOf id = .standIn then ns.modify id fun n => { n with kind := .text } else ns

/-- The mappings that a merge key names: its value is one of them, or a list of them,
of which the first one wins. -/
def merged? (ns : Nodes) (id : Nat) : Option (List Nat) :=
  match ns[id]? with
  | some ⟨_, .mapping _⟩ => some [id]
  | some ⟨_, .sequence items⟩ => some items
  | _ => none

/-- Merge the mappings that are named in a mapping; `taken` are the members that were
taken in so far. -/
def merge? (id : Nat) (taken : List (Nat × Nat)) : (steps : Nat) → Nodes → Option Nodes
  | 0, _ => none
  | n + 1, ns => do
    let ps ← ns.pairs? id
    match ps.findIdx? fun p => ns.kindOf p.1 = .merge with
    | none => return (ps.foldl (fun ns p => ns.freeKey p.1) ns).setPairs id (taken ++ ps)
    | some i =>
      let sources ← (ps[i]?).bind fun p => ns.merged? p.2
      let ns := ns.setPairs id (ps.eraseIdx i)
      let (ns, found) ← sources.foldlM (fun ((ns, found) : Nodes × List (Nat × Nat)) source => do
        let ns ← merge? source [] n ns
        return (ns, (← ns.pairs? source) ++ found)) (ns, [])
      merge? id (taken ++ found) n ns

/-- How many members all mappings have together. -/
def pairCount (ns : Nodes) : Nat :=
  ns.foldl (fun n node => match node.content with
    | .mapping ps => n + ps.length
    | _ => n) 0

end TaskLine.Yaml.Nodes
