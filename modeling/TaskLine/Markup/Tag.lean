import TaskLine.Text.Basic

/-!
# Tags

A tag begins at a `<` and ends with the first `>` that stands outside quotes;
a quoted attribute value may hold a `>`. A tag that is never closed takes the
rest of the text.
-/

namespace TaskLine.Markup

/-- Where the reading of a tag stands with respect to quotes. -/
inductive Quoting where
  | bare
  | single
  | double
deriving DecidableEq, Repr

/-- A quote opens a quoted value or closes its own kind; inside the other kind
it is an ordinary character. -/
def Quoting.next : Quoting → Char → Quoting
  | .bare, '\'' => .single
  | .bare, '"' => .double
  | .single, '\'' => .bare
  | .double, '"' => .bare
  | q, _ => q

/-- How many characters the tag takes that is being read at the front of a
text, up to and with its `>`. -/
def tagLength : Quoting → Text → Nat
  | _, [] => 0
  | q, c :: cs => if q = .bare && c = '>' then 1 else tagLength (q.next c) cs + 1

/-- The offset of the `>` that ends the tag which begins at `start`. If there is
none, the offset of the last character of the text, which is -1 in an empty
one. -/
def tagEnd (s : Text) (start : Nat) : Int :=
  if start < s.length then (start + tagLength .bare (s.drop start) : Int) - 1
  else (s.length : Int) - 1

/-- The tag that a text begins with; a text that does not begin with a tag is
returned whole. -/
def openingTag (s : Text) : Text :=
  if s.head? = some '<' then s.take (tagLength .bare s) else s

/-- Whether a text begins with an opening `span` tag, in any letter case. -/
def beginsSpan (s : Text) : Bool := Text.beginsLower "<span".toList s

/-- Whether a text begins with a closing `span` tag, in any letter case. -/
def beginsSpanEnd (s : Text) : Bool := Text.beginsLower "</span".toList s

end TaskLine.Markup
