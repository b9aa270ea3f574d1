import TaskLine.Yaml.Words

/-!
# Tokens

A document as a row of tokens. Where the layout of the lines begins or ends a list
or a mapping there is a token for it as well, and a token in front of every key,
so that the nodes can be read from the tokens alone.
-/

namespace TaskLine.Yaml

/-- What a collection holds: items, or keys with their values. -/
inductive Shape where
  | sequence
  | mapping
deriving DecidableEq, Repr

/-- What a line that begins with a percent sign says. -/
inductive Directive where
  /-- The version of the language; only its first number matters. -/
  | version (major : Nat)
  /-- A handle and the text that it stands for at the front of tags. -/
  | handle (name short : Text)
  | unknown
deriving DecidableEq, Repr

inductive Token where
  | directive (d : Directive)
  /-- A document begins by a mark. -/
  | start
  /-- A document ends by a mark. -/
  | finish
  /-- The layout of the lines begins a collection. -/
  | openBlock (shape : Shape)
  | closeBlock
  /-- A bracket begins a collection. -/
  | openFlow (shape : Shape)
  | closeFlow (shape : Shape)
  /-- The dash before an item. -/
  | entry
  | comma
  | key
  | value
  | anchor (name : Text)
  | alias (name : Text)
  /-- A tag in two parts; without a handle the second part is all of it. -/
  | tag (handle : Option Text) (suffix : Text)
  /-- A scalar; plain ones are written without quotes. -/
  | scalar (words : Words) (plain : Bool)
deriving DecidableEq, Repr

end TaskLine.Yaml
