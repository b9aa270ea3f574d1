import TaskLine.Text.Digits
import TaskLine.Yaml.Cursor
import TaskLine.Yaml.Words

/-!
# Quoted scalars

Between single quotes a quote is written twice and everything else stands for
itself. Between double quotes a backslash begins an escape. A quoted scalar may go
over several lines: a line break counts as a space, and each empty line that
follows as a line break; the blanks around it do not count. No document may begin
or end by a mark before the closing quote.
-/

namespace TaskLine.Yaml

/-- The empty lines that begin here, with the blanks before the next word. -/
def quotedBreaks? (c : Cursor) : Option (Text × Cursor) :=
  let (breaks, c) := c.skipBreaks isBlank (c.rest.length + 1)
  breaks.map fun s => (s, c)

/-- The blanks between two words, or what the line breaks between them count as. -/
def quotedGap? (c : Cursor) : Option (Text × Cursor) :=
  let (blanks, behind) := c.takeWhile isBlank
  match behind.lineBreak? with
  | some (b, behind) => (quotedBreaks? behind).map fun (bs, c) => (Cursor.folded b bs, c)
  | none => if behind.isAtEnd then none else some (blanks, behind)

/-- Read on between single quotes: the text, and the place behind the closing quote. -/
def readSingle : Nat → Cursor → Option (Text × Cursor)
  | 0, _ => none
  | n + 1, c =>
    match c.rest with
    | [] => none
    | '\'' :: '\'' :: _ => (readSingle n (c.skip 2)).map fun r => ('\'' :: r.1, r.2)
    | '\'' :: _ => some ([], c.next)
    | d :: _ =>
      if isBlank d || isBreak d then
        (quotedGap? c).bind fun (gap, c) => (readSingle n c).map fun r => (gap ++ r.1, r.2)
      else (readSingle n c.next).map fun r => (d :: r.1, r.2)

/-! ## Escapes -/

/-- What an escape of one letter stands for. -/
def escape? (c : Char) : Option Nat :=
  match c with
  | '0' => some 0
  | 'a' => some 7
  | 'b' => some 8
  | 't' | '\t' => some 9
  | 'n' => some 10
  | 'v' => some 11
  | 'f' => some 12
  | 'r' => some 13
  | 'e' => some 27
  | ' ' | '"' | '\\' | '/' => some c.toNat
  | 'N' => some 0x85
  | '_' => some 0xA0
  | 'L' => some 0x2028
  | 'P' => some 0x2029
  | _ => none

/-- How many digits an escape with a number has. -/
def escapeWidth? (c : Char) : Option Nat :=
  match c with
  | 'x' => some 2
  | 'u' => some 4
  | 'U' => some 8
  | _ => none

/-- The number of some digits in base sixteen. -/
def hexNumber? (s : Text) : Option Nat := (s.mapM Text.hexValue?).map (Text.ofDigits 16)

/-- The code that an escape stands for, read behind the backslash. -/
def readEscape? (c : Cursor) : Option (Nat × Cursor) :=
  c.peek.bind fun letter =>
    match escapeWidth? letter with
    | some width =>
      let digits := c.next.rest.take width
      if digits.length = width then
        (hexNumber? digits).bind fun n =>
          if n < 0x110000 then some (n, c.skip (width + 1)) else none
      else none
    | none => (escape? letter).map fun n => (n, c.next)

/-- Read on between double quotes: the codes, and the place behind the closing
quote. A backslash before a line break leaves the break out. -/
def readDouble : Nat → Cursor → Option (List Nat × Cursor)
  | 0, _ => none
  | n + 1, c =>
    match c.rest with
    | [] => none
    | '"' :: _ => some ([], c.next)
    | '\\' :: _ =>
      match c.next.lineBreak? with
      | some (_, c) =>
        (quotedBreaks? c).bind fun (bs, c) =>
          (readDouble n c).map fun r => (bs.map Char.toNat ++ r.1, r.2)
      | none =>
        (readEscape? c.next).bind fun (d, c) => (readDouble n c).map fun r => (d :: r.1, r.2)
    | d :: _ =>
      if isBlank d || isBreak d then
        (quotedGap? c).bind fun (gap, c) =>
          (readDouble n c).map fun r => (gap.map Char.toNat ++ r.1, r.2)
      else (readDouble n c.next).map fun r => (d.toNat :: r.1, r.2)

/-- Read a quoted scalar, the opening quote included. -/
def readQuoted? (c : Cursor) : Option (Words × Cursor) :=
  match c.peek with
  | some '\'' => (readSingle (c.rest.length + 1) c.next).map fun r => (.text r.1, r.2)
  | some '"' => (readDouble (c.rest.length + 1) c.next).map fun r => (.ofCodes r.1, r.2)
  | _ => none

end TaskLine.Yaml
