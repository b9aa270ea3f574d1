import TaskLine.Yaml.Page

/-!
# Styles of scalars

A text is written plainly where nothing in it would be taken for something else,
between single quotes where all of it can stand for itself, and between double
quotes otherwise. Long ones go over several lines, broken at single spaces.
-/

namespace TaskLine.Yaml

/-! ## Which style a text allows -/

/-- Whether a plain text would be taken for something else at its start. -/
def startsMarked (s : Text) : Bool :=
  match s with
  | [] => false
  | c :: cs =>
    s.take 3 = "---".toList || s.take 3 = "...".toList
      || "#,[]\x7b\x7d&*!|>'\"%@`".toList.contains c
      || ((c = '?' || c = ':' || c = '-') && endsWord cs.head?)

/-- Whether a plain text would end early: at a colon before a blank, or at a number
sign behind one. -/
def endsEarly : Text → Bool
  | a :: b :: cs =>
    (b = ':' && endsWord cs.head?) || (b = '#' && endsWord (some a)) || endsEarly (b :: cs)
  | _ => false

/-- Whether a character stands for itself without double quotes. -/
def isPrintable (c : Char) : Bool :=
  let n := c.toNat
  (0x20 ≤ n && n ≤ 0x7E) || n = 10 || n = 0x85 || (0xA0 ≤ n && n ≤ 0xFFFD && n != 0xFEFF)
    || (0x10000 ≤ n && n < 0x10FFFF)

/-- Whether a space stands beside a line break. -/
def spaceAtBreak : Text → Bool
  | a :: b :: cs => (a = ' ' && isBreak b) || (isBreak a && b = ' ') || spaceAtBreak (b :: cs)
  | _ => false

def isMultiline (s : Text) : Bool := s.any isBreak

/-- Whether a text can be written without quotes, as far as its characters go. -/
def allowsPlain (s : Text) : Bool :=
  !startsMarked s && !endsEarly s && s.all (fun c => isPrintable c && !isBreak c)
    && s.head? != some ' ' && s.getLast? != some ' '

/-- Whether a text can be written between single quotes. -/
def allowsSingle (s : Text) : Bool := s.all isPrintable && !spaceAtBreak s

/-! ## Writing -/

/-- The runs of spaces, of line breaks and of other characters in a text. -/
def runs (s : Text) : List Text :=
  s.splitBy fun a b => (a == ' ') == (b == ' ') && isBreak a == isBreak b

/-- Write a text without quotes. `column` is that of further lines, if there may be
any. -/
def writePlain (column : Option Nat) (s : Text) (p : Page) : Page :=
  (runs s).foldl (fun p run =>
    match column with
    | some column => if run = [' '] && p.isFull then p.wrap column else p.join run
    | none => p.join run) (p.mark [])

/-- Write runs between single quotes. A quote is written twice, and so is the first
line feed of a run of breaks, since a single one would count as a space. -/
def singleRuns (column : Option Nat) (first : Bool) : List Text → Page → Page
  | [], p => p
  | run :: rest, p =>
    let page :=
      if run.any isBreak then
        let p := if run.head? = some '\n' then p.breakLine '\n' else p
        (run.foldl (fun p b => p.breakLine b) p).indent (column.getD 0)
      else
        let folds := run = [' '] && p.isFull && !first && !rest.isEmpty
        match column with
        | some column => if folds then p.indent column else p.put (double run)
        | none => p.put (double run)
    singleRuns column false rest page
where
  double (run : Text) : Text := run.flatMap fun c => if c = '\'' then ['\'', '\''] else [c]

def writeSingle (column : Option Nat) (s : Text) (p : Page) : Page :=
  (singleRuns column true (runs s) (p.mark ['\''])).join ['\'']

/-! ### Double quotes -/

def upperHexDigit (n : Nat) : Char := if n < 10 then Char.ofNat (48 + n) else Char.ofNat (55 + n)

/-- The last digits of a number in base sixteen, in capitals. -/
def upperHex : Nat → Nat → Text
  | 0, _ => []
  | width + 1, n => upperHex width (n / 16) ++ [upperHexDigit (n % 16)]

/-- The letter of an escape. -/
def escapeLetter? (n : Nat) : Option Char :=
  match n with
  | 0 => some '0'
  | 7 => some 'a'
  | 8 => some 'b'
  | 9 => some 't'
  | 10 => some 'n'
  | 11 => some 'v'
  | 12 => some 'f'
  | 13 => some 'r'
  | 27 => some 'e'
  | 34 => some '"'
  | 92 => some '\\'
  | 0x85 => some 'N'
  | 0x2028 => some 'L'
  | 0x2029 => some 'P'
  | _ => none

/-- How a code number is written between double quotes if it cannot stand for
itself. -/
def escaped? (n : Nat) : Option Text :=
  match escapeLetter? n with
  | some letter => some ['\\', letter]
  | none =>
    if (0x20 ≤ n && n ≤ 0x7E) || (0xA0 ≤ n && n ≤ 0xD7FF)
      || (0xE000 ≤ n && n ≤ 0xFFFD && n != 0xFEFF)
    then none
    else if n ≤ 0xFF then some ('\\' :: 'x' :: upperHex 2 n)
    else if n ≤ 0xFFFF then some ('\\' :: 'u' :: upperHex 4 n)
    else some ('\\' :: 'U' :: upperHex 8 n)

/-- Break a line between double quotes, before the code numbers that follow. A space
at the start of a line is marked by a backslash. -/
def wrapDouble (column : Nat) (next : Option Nat) (p : Page) : Page :=
  let p := (p.put ['\\']).wrap column
  if next = some 32 then p.put ['\\'] else p

/-- Write code numbers between double quotes. `held` are the characters that were
read but not written yet, last one first. A line can be broken behind an escape and
before a space, but neither behind the first code number nor before the last one. -/
def doubleFrom (column : Option Nat) (first : Bool) (held : Text) : List Nat → Page → Page
  | [], p => p.put held.reverse
  | n :: rest, p =>
    let inside := !first && !rest.isEmpty
    match escaped? n with
    | some s =>
      let p := (p.put held.reverse).put s
      let page := match column with
        | some column =>
          if inside && Page.width + 1 < p.column then wrapDouble column rest.head? p else p
        | none => p
      doubleFrom column false [] rest page
    | none =>
      let c := Char.ofNat n
      let isFull := Page.width < p.column + held.length
      match column with
      | some k =>
        if inside && (n = 32 || held.isEmpty) && isFull then
          doubleFrom column false [c] rest (wrapDouble k (some n) (p.put held.reverse))
        else doubleFrom column false (c :: held) rest p
      | none => doubleFrom column false (c :: held) rest p

def writeDouble (column : Option Nat) (codes : List Nat) (p : Page) : Page :=
  (doubleFrom column true [] codes (p.mark ['"'])).join ['"']

/-! ### Blocks -/

/-- Write lines as a block behind a bar. -/
def writeBlock (column : Nat) (lines : List Text) (p : Page) : Page :=
  lines.foldl (fun p line => ((p.indent column).put line).breakLine '\n')
    ((p.mark ['|']).breakLine '\n')

end TaskLine.Yaml
