import TaskLine.Yaml.Cursor

/-!
# Plain scalars

A word without quotes. It ends at a colon before a blank, at a number sign behind a
blank and at a tab; inside brackets at their marks as well. It goes on over line
breaks, which count as in quoted scalars, as long as the lines stay within the
indentation.
-/

namespace TaskLine.Yaml

/-- The characters that a plain scalar never begins with. -/
def indicators : Text := ",[]\x7b\x7d#&*!|>'\"%@`".toList

/-- Whether a plain scalar begins here; inside brackets it cannot begin with a
question mark or a colon. -/
def startsPlain (inBrackets : Bool) : Text → Bool
  | [] => false
  | c :: cs =>
    if c = '-' then !endsWord cs.head?
    else if c = '?' || c = ':' then !inBrackets && !endsWord cs.head?
    else !endsWord (some c) && !indicators.contains c

/-- The part of a line up to a blank, or to what ends the scalar. -/
def plainRun (inBrackets : Bool) : Text → Text
  | [] => []
  | c :: cs =>
    let closes := c = ':' && (endsWord cs.head? || (inBrackets && match cs.head? with
      | some d => ",[]\x7b\x7d".toList.contains d
      | none => false))
    if endsWord (some c) || closes || (inBrackets && ",?[]\x7b\x7d".toList.contains c) then []
    else c :: plainRun inBrackets cs

/-- What stands between two words of a plain scalar. -/
structure PlainGap where
  /-- What it counts as; nothing ends the scalar. -/
  text : Text
  /-- Whether a line ended in it. -/
  ended : Bool
  place : Cursor

/-- The spaces that come next, or what the line breaks that come next count as. A
mark of a document behind a line break ends the scalar. -/
def plainGap (c : Cursor) : PlainGap :=
  let (spaces, behind) := c.takeWhile (· = ' ')
  match behind.lineBreak? with
  | some (b, behind) =>
    let (breaks, place) := behind.skipBreaks (· = ' ') (behind.rest.length + 1)
    { text := (breaks.map (Cursor.folded b)).getD [], ended := true, place }
  | none => { text := spaces, ended := false, place := behind }

/-- A plain scalar as it was read. -/
structure PlainScalar where
  text : Text
  /-- Whether a line ended behind its last word. -/
  ended : Bool
  place : Cursor

/-- Read on in a plain scalar that keeps to columns from `floor` on outside of
brackets. `gap` stands between what was read and this place. -/
def readPlain (inBrackets : Bool) (floor : Nat) (gap : PlainGap) : Nat → PlainScalar
  | 0 => { text := [], ended := gap.ended, place := gap.place }
  | n + 1 =>
    let c := gap.place
    let run := if c.peek = some '#' then [] else plainRun inBrackets c.rest
    if run.isEmpty then { text := [], ended := gap.ended, place := c }
    else
      let next := plainGap (c.skip run.length)
      let tail : PlainScalar :=
        if next.text.isEmpty || (!inBrackets && next.place.column < floor) then
          { text := [], ended := next.ended, place := next.place }
        else readPlain inBrackets floor next n
      { tail with text := gap.text ++ run ++ tail.text }

/-- Read a plain scalar that begins here. -/
def plainAt (inBrackets : Bool) (floor : Nat) (c : Cursor) : PlainScalar :=
  readPlain inBrackets floor { text := [], ended := false, place := c } (c.rest.length + 1)

end TaskLine.Yaml
