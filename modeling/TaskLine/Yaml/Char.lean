import TaskLine.Text.Basic

/-!
# The characters of YAML

A line may be broken by a line feed, by the next line of ISO 6429 and by the two
separators of Unicode; carriage returns have been read as line feeds before. Only
printable characters may stand in a document.
-/

namespace TaskLine.Yaml

/-- Whether a character breaks a line. -/
def isBreak (c : Char) : Bool :=
  c = '\n' || c.toNat = 0x85 || c.toNat = 0x2028 || c.toNat = 0x2029

def isBlank (c : Char) : Bool := c = ' ' || c = '\t'

/-- Whether a word has ended if this is what follows it. -/
def endsWord : Option Char → Bool
  | none => true
  | some c => isBlank c || isBreak c || c = '\r' || c.toNat = 0

/-- Whether a tag, a part of a directive or the head of a block has ended if this is
what follows it. Tabs do not end those. -/
def endsPart : Option Char → Bool
  | none => true
  | some c => c = ' ' || isBreak c

/-- Whether a character may stand in the name of an anchor, a handle or a
directive. -/
def isNameChar (c : Char) : Bool :=
  Text.isAsciiLetter c || Text.isAsciiDigit c || c = '-' || c = '_'

/-- Whether a character may stand in a document. -/
def isAllowed (c : Char) : Bool :=
  let n := c.toNat
  n = 9 || n = 10 || n = 13 || (0x20 ≤ n && n ≤ 0x7E) || n = 0x85
    || (0xA0 ≤ n && n ≤ 0xFFFD) || 0x10000 ≤ n

end TaskLine.Yaml
