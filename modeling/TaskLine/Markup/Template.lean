import TaskLine.Markup.Attribute
import TaskLine.Markup.Wrapper

/-!
# Templates

What a wrapper says about itself: the template it is an instance of, the order
tag that gives it its place on the line, and its data properties. All of this
is read from the opening tag alone; what the wrapper holds inside has no say.
-/

namespace TaskLine.Markup

/-- A template instance, as read from its wrapper. -/
structure Template where
  /-- The whole wrapper. -/
  html : Text
  /-- The template's key; empty if there is none. -/
  key : Text
  /-- The order tag, if there is one and it is not empty. -/
  order : Option Text
  /-- The data properties, by name. -/
  props : Props
  /-- What the wrapper holds. -/
  inner : Text
deriving DecidableEq, Repr

namespace Template

/-- Read a wrapper. -/
def read (wrapper : Text) : Template :=
  let head := openingTag wrapper
  { html := wrapper
    key := (attribute? keyName head).getD []
    order := (attribute? "data-order-tag".toList head).filter (!·.isEmpty)
    props := .ofPairs (dataAttributes head)
    inner := innerText wrapper }

/-- The template of people that a task is assigned to. -/
def assigneeKey : Text := "members.assignee".toList

/-- How a person is assigned: the property `assign-type`, or `assigntype` if
that is absent or empty. -/
def assignType (t : Template) : Text :=
  let own := (t.props.get? "assign-type".toList).getD []
  if own.isEmpty then (t.props.get? "assigntype".toList).getD [] else own

/-- The places that a wrapper can take on a line. -/
inductive Place where
  | parentLink
  | itemType
  | state
  | assignee
  | delegate
  | metadata
  | other
deriving DecidableEq, Repr

/-- The place that an order tag names. -/
def placeOfOrder (order : Option Text) : Place :=
  if order = some "parent-link".toList then .parentLink
  else if order = some "artifact-item-type".toList then .itemType
  else if order = some "state".toList then .state
  else if order = some "metadata".toList then .metadata
  else .other

/-- The place of a wrapper. A person's wrapper goes by how the person is
assigned; if that is not known, it goes by its order tag as any other does. -/
def place (t : Template) : Place :=
  if t.key = assigneeKey then
    if t.assignType = "assignee".toList || t.assignType = "special".toList then .assignee
    else if t.assignType = "delegate".toList then .delegate
    else placeOfOrder t.order
  else placeOfOrder t.order

end Template

end TaskLine.Markup
