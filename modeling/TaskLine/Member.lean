import TaskLine.Markup.Build
import TaskLine.Markup.Template
import TaskLine.Pieces
import TaskLine.Text.Quoted

/-!
# Members

The people and teams that a task can be assigned to, and the wrapper that says
so. Team members and everyone together become assignees; every other kind
becomes a delegate.
-/

namespace TaskLine

/-- The kinds of members. -/
inductive MemberType where
  | teamMember
  | delegateTeam
  | delegateTeamMember
  | delegateExternal
  | special
deriving DecidableEq, Repr

/-- Whether an assignment is in force. -/
inductive AssignmentState where
  | active
  | inactive
deriving DecidableEq, Repr

/-- The slots that an assignment can fill. -/
inductive AssignmentSlot where
  | assignee
  | delegate
deriving DecidableEq, Repr

namespace MemberType

def all : List MemberType :=
  [.teamMember, .delegateTeam, .delegateTeamMember, .delegateExternal, .special]

def name : MemberType → Text
  | .teamMember => "teamMember".toList
  | .delegateTeam => "delegateTeam".toList
  | .delegateTeamMember => "delegateTeamMember".toList
  | .delegateExternal => "delegateExternal".toList
  | .special => "special".toList

def ofName? (s : Text) : Option MemberType := all.find? (·.name = s)

/-- The picture in front of a member's name. -/
def emoji : MemberType → Char
  | .teamMember => '👤'
  | .delegateTeam => '👥'
  | .delegateTeamMember => '🧑'
  | .delegateExternal => '🌐'
  | .special => '🌍'

/-- The slot that members of a kind fill. -/
def slot : MemberType → AssignmentSlot
  | .teamMember | .special => .assignee
  | _ => .delegate

end MemberType

namespace AssignmentState

def name : AssignmentState → Text
  | .active => "active".toList
  | .inactive => "inactive".toList

def ofName? (s : Text) : Option AssignmentState :=
  [AssignmentState.active, .inactive].find? (·.name = s)

end AssignmentState

def AssignmentSlot.name : AssignmentSlot → Text
  | .assignee => "assignee".toList
  | .delegate => "delegate".toList

/-- The slot for a kind of member given by its name. A name that is not known
goes with the delegates. -/
def slotForName (memberType : Text) : AssignmentSlot :=
  match MemberType.ofName? memberType with
  | some t => t.slot
  | none => .delegate

/-- Why a member cannot be assigned. -/
inductive AssignError where
  | unknownType (name : Text)
  | unknownState (name : Text)
deriving DecidableEq, Repr

def AssignError.message : AssignError → Text
  | .unknownType name => "Unknown member type: ".toList ++ Text.quoted name
  | .unknownState name => "Unknown assignment state: ".toList ++ Text.quoted name

/-- The background of a member's chip. -/
def chipColor (slot : AssignmentSlot) : AssignmentState → Text
  | .inactive => "#CACFD9".toList
  | .active =>
    match slot with
    | .assignee => "#A7F3D0".toList
    | .delegate => "#BFDBFE".toList

/-- The wrapper that assigns a task to a member. -/
def assignment (id memberName slug : Text) (type : MemberType) (state : AssignmentState) :
    Text :=
  let label := type.emoji :: ' ' :: Markup.escape (Text.trim memberName)
  let inner :=
    Markup.chip label (some (chipColor type.slot state)) (some "#000000".toList) true
  Markup.wrap id Markup.Template.assigneeKey inner
    [("orderTag".toList, .text "assignment".toList),
     ("assignmentState".toList, .text state.name),
     ("memberSlug".toList, .text (Text.trim slug)),
     ("memberType".toList, .text type.name),
     ("assignType".toList, .text type.slot.name)]

/-- The wrapper that assigns a task to a member whose kind and state are given
by name. White space around the kind does not count. -/
def assignmentFor (id memberName slug type state : Text) : Except AssignError Text :=
  match MemberType.ofName? (Text.trim type) with
  | none => .error (.unknownType (Text.trim type))
  | some t =>
    match AssignmentState.ofName? state with
    | none => .error (.unknownState state)
    | some st => .ok (assignment id memberName slug t st)

/-- The overrides that put a wrapper into the slot for a kind of member given by
its name. -/
def assignOverrides (type wrapper : Text) : Overrides :=
  match slotForName type with
  | .assignee => { assignee := .set (some wrapper) }
  | .delegate => { delegate := .set (some wrapper) }

end TaskLine
