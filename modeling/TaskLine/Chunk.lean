import TaskLine.Text.Basic

/-!
# Chunks

A scanner that looks for something in a text - inline wrappers, date tokens -
cuts the text into chunks and marks those it was looking for. The chunks of a
text join to the text again; what was found are the marked ones, and the text
is changed by putting something else in their place.

A scanner is a function `read`: at a character and what follows it, whether
the chunk that begins here is marked, and how many further characters it has.
-/

namespace TaskLine

/-- A stretch of a text, marked if it is what the scanner looks for. -/
structure Chunk where
  marked : Bool
  text : Text
deriving DecidableEq, Repr

namespace Chunk

/-- The chunks of a text whose first `skip` characters belong to a chunk that
has begun before. -/
def scanFrom (read : Char → Text → Bool × Nat) : Nat → Text → List Chunk
  | _, [] => []
  | skip + 1, _ :: cs => scanFrom read skip cs
  | 0, c :: cs =>
    let (marked, more) := read c cs
    ⟨marked, c :: cs.take more⟩ :: scanFrom read more cs

/-- The chunks of a text. -/
def scan (read : Char → Text → Bool × Nat) (s : Text) : List Chunk := scanFrom read 0 s

theorem scanFrom_drop (read : Char → Text → Bool × Nat) (n : Nat) (s : Text) :
    scanFrom read n s = scan read (s.drop n) := by
  induction s generalizing n with
  | nil => cases n <;> simp [scan, scanFrom]
  | cons c cs ih =>
    cases n with
    | zero => rfl
    | succ n => simpa [scanFrom] using ih n

/-- One chunk is read, and the scan goes on behind it. -/
theorem scan_cons (read : Char → Text → Bool × Nat) (c : Char) (cs : Text) :
    scan read (c :: cs) =
      ⟨(read c cs).1, c :: cs.take (read c cs).2⟩ :: scan read (cs.drop (read c cs).2) := by
  rw [← scanFrom_drop]
  rfl

/-! ## What is done with the chunks -/

/-- The text that the chunks were cut from. -/
def joined (chunks : List Chunk) : Text := chunks.flatMap Chunk.text

/-- What the scanner found, in order. -/
def found (chunks : List Chunk) : List Text :=
  (chunks.filter Chunk.marked).map Chunk.text

/-- The text with a single space in place of each marked chunk. -/
def cleared (chunks : List Chunk) : Text :=
  chunks.flatMap fun k => if k.marked then [' '] else k.text

/-- The text with every marked character turned into a space, so that every
offset stays valid. -/
def blanked (chunks : List Chunk) : Text :=
  chunks.flatMap fun k => if k.marked then Text.spaces k.text.length else k.text

/-- The offsets, start and end, at which the marked chunks stand in a text whose
chunks begin at the offset `pos`. -/
def ranges (pos : Nat) : List Chunk → List (Nat × Nat)
  | [] => []
  | k :: ks =>
    let stop := pos + k.text.length
    if k.marked then (pos, stop) :: ranges stop ks else ranges stop ks

/-- A scan loses nothing: its chunks join to the text. -/
theorem joined_scan (read : Char → Text → Bool × Nat) (s : Text) :
    joined (scan read s) = s := by
  match s with
  | [] => rfl
  | c :: cs =>
    have ih := joined_scan read (cs.drop (read c cs).2)
    rw [scan_cons, joined, List.flatMap_cons]
    rw [joined] at ih
    simp [ih]
termination_by s.length
decreasing_by simp only [List.length_drop, List.length_cons]; omega

theorem length_blanked (chunks : List Chunk) :
    (blanked chunks).length = (joined chunks).length := by
  induction chunks with
  | nil => rfl
  | cons k ks ih =>
    simp only [blanked, joined, List.flatMap_cons, List.length_append] at ih ⊢
    rw [ih]
    cases k.marked <;> simp [Text.spaces]

end Chunk

end TaskLine
