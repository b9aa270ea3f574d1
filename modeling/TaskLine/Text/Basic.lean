/-!
# Text

A text is its list of code points, so a length is a count of code points and an
offset is a position in the list. This module holds what every later module
says about texts: which characters count as white space, trimming, finding one
text in another, and comparing letters without regard to case.

Everything recurses on the text itself. The two halves that a function cuts a
text into always append to the whole again.
-/

namespace TaskLine

/-- A text: its code points in order. -/
abbrev Text := List Char

namespace Text

/-! ## White space -/

/-- The characters that count as white space: the ASCII controls U+0009 to
U+000D and U+001C to U+001F, the space, and the separators of Unicode. The
zero-width characters (U+180E, U+200B, U+FEFF) do not. -/
def isSpace (c : Char) : Bool :=
  let n := c.toNat
  (9 ≤ n && n ≤ 13) || (28 ≤ n && n ≤ 32) || n == 0x85 || n == 0xA0 || n == 0x1680
    || (0x2000 ≤ n && n ≤ 0x200A) || n == 0x2028 || n == 0x2029 || n == 0x202F
    || n == 0x205F || n == 0x3000

/-- The text behind its leading white space. -/
def trimLeft (s : Text) : Text := s.dropWhile isSpace

/-- The text before its trailing white space. -/
def trimRight (s : Text) : Text := (s.reverse.dropWhile isSpace).reverse

/-- The text without white space at either end. -/
def trim (s : Text) : Text := trimRight (trimLeft s)

/-- Every run of two or more white space characters becomes one space. A white
space character that stands alone is kept as it is. -/
def collapse : Text → Text
  | [] => []
  | c :: cs =>
    match collapse cs with
    | [] => [c]
    | d :: out => if isSpace c && isSpace d then ' ' :: out else c :: d :: out

/-! ## Finding one text in another -/

/-- What follows the text `p` at the front of a text, if it begins with `p`. -/
def after? : Text → Text → Option Text
  | [], s => some s
  | _ :: _, [] => none
  | p :: ps, c :: cs => if p = c then after? ps cs else none

/-- The offset of the first place where `needle` occurs. The empty needle
occurs at the front. -/
def find? (needle : Text) : Text → Option Nat
  | [] => if needle.isEmpty then some 0 else none
  | c :: cs =>
    if (after? needle (c :: cs)).isSome then some 0
    else (find? needle cs).map (· + 1)

/-- Like `find?`, from the offset `start` on; the answer counts from the front
of the whole text. -/
def findFrom? (needle : Text) (start : Nat) (s : Text) : Option Nat :=
  if s.length < start then none else (find? needle (s.drop start)).map (· + start)

/-- Whether `needle` occurs anywhere. -/
def occurs (needle s : Text) : Bool := (find? needle s).isSome

/-- The part from offset `i` up to, not including, offset `j`. -/
def slice (i j : Nat) (s : Text) : Text := (s.take j).drop i

/-- The part before the first `sep` and the part after it, if there is one. -/
def splitAt? (sep : Char) : Text → Option (Text × Text)
  | [] => none
  | c :: cs =>
    if c = sep then some ([], cs) else (splitAt? sep cs).map fun (a, b) => (c :: a, b)

/-- The parts between the occurrences of `sep`; always at least one part. -/
def splitOn (sep : Char) : Text → List Text
  | [] => [[]]
  | c :: cs =>
    if c = sep then [] :: splitOn sep cs
    else match splitOn sep cs with
      | [] => [[c]]
      | part :: parts => (c :: part) :: parts

/-- The texts in order, `sep` between each two. -/
def join (sep : Text) (parts : List Text) : Text := sep.intercalate parts

theorem join_singleton (sep part : Text) : join sep [part] = part := List.intercalate_singleton

theorem join_cons_cons (sep part part' : Text) (parts : List Text) :
    join sep (part :: part' :: parts) = part ++ (sep ++ join sep (part' :: parts)) := by
  rw [join, List.intercalate_cons_cons, List.append_assoc]
  rfl

theorem join_append_cons (sep part : Text) (parts parts' : List Text) :
    join sep (parts ++ part :: parts') =
      parts.flatMap (fun p => p ++ sep) ++ join sep (part :: parts') := by
  induction parts with
  | nil => rfl
  | cons first parts ih =>
    rw [List.flatMap_cons, List.append_assoc, ← ih, List.append_assoc, List.cons_append]
    cases parts <;> exact join_cons_cons ..

/-- `n` spaces. -/
def spaces (n : Nat) : Text := List.replicate n ' '

/-- Every `a` becomes `b`. -/
def replace (a b : Char) (s : Text) : Text := s.map fun c => if c = a then b else c

/-! ## ASCII letters -/

/-- The lower-case form of an ASCII letter; any other character is kept. -/
def lowerAscii (c : Char) : Char :=
  if 'A' ≤ c ∧ c ≤ 'Z' then Char.ofNat (c.toNat + 32) else c

/-- Whether the text begins with `p`, given in lower case, when ASCII letters
are compared without regard to case. -/
def beginsLower : Text → Text → Bool
  | [], _ => true
  | _ :: _, [] => false
  | p :: ps, c :: cs => lowerAscii c = p && beginsLower ps cs

/-- Whether `c` is the lower-case ASCII letter `p` up to case. The long s and
the Kelvin sign are the letters s and k in another case. -/
def foldsTo (p c : Char) : Bool :=
  lowerAscii c = p || (p = 's' && c.toNat = 0x17F) || (p = 'k' && c.toNat = 0x212A)

/-- What follows a text that equals `p`, given in lower case, up to case. -/
def afterFold? : Text → Text → Option Text
  | [], s => some s
  | _ :: _, [] => none
  | p :: ps, c :: cs => if foldsTo p c then afterFold? ps cs else none

def isAsciiDigit (c : Char) : Bool := '0' ≤ c && c ≤ '9'

def isAsciiLower (c : Char) : Bool := 'a' ≤ c && c ≤ 'z'

def isAsciiUpper (c : Char) : Bool := 'A' ≤ c && c ≤ 'Z'

def isAsciiLetter (c : Char) : Bool := isAsciiLower c || isAsciiUpper c

end Text

end TaskLine
