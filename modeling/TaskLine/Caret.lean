import TaskLine.DateToken
import TaskLine.Markup.Wrapper
import TaskLine.Selection

/-!
# Where the caret goes

When a line is formatted the caret is to stay behind what the user has just
typed, even when wrappers and date tokens move around it. A line that has not
changed keeps its selection. Otherwise the caret follows, in this order:

* the nearest word of the user's text at or before it, to where that word first
  stands in the new line;
* the context on its left, that on both sides, or that on its right;
* the end of the new line.
-/

namespace TaskLine.Caret

/-- How many characters of context are looked for. -/
def contextLength : Nat := 16

/-- A word of the user's text and where it stands: from `start` up to, not
including, `stop`. -/
structure Word where
  text : Text
  start : Nat
  stop : Nat
deriving DecidableEq, Repr

/-! ## Words -/

/-- The line with wrappers, date tokens and arrows turned into spaces, all
offsets kept. -/
def userText (line : Text) : Text :=
  Text.replace DateToken.arrow ' ' (DateToken.blank (Markup.blankWrappers line))

/-- A word that is only a character long is no landmark. -/
def landmark (text : Text) (start : Nat) : List Word :=
  if text.length < 2 then [] else [⟨text, start, start + text.length⟩]

/-- The words of a text that begins at offset `pos`, when `word`, reversed, has
been read before it. -/
def wordsFrom (pos : Nat) (word : Text) : Text → List Word
  | [] => landmark word.reverse (pos - word.length)
  | c :: cs =>
    if Text.isSpace c then landmark word.reverse (pos - word.length) ++ wordsFrom (pos + 1) [] cs
    else wordsFrom (pos + 1) (c :: word) cs

/-- The words of the user's text, of two characters and more, in order. -/
def words (line : Text) : List Word := wordsFrom 0 [] (userText line)

/-- For each word that occurs in the new line: its end in the old line and the
end of its first occurrence in the new one. -/
def wordMap (ws : List Word) (new : Text) : List (Nat × Nat) :=
  ws.filterMap fun w => (Text.find? w.text new).map fun i => (w.stop, i + w.text.length)

/-! ## The ways to place a caret -/

/-- The entry for the last word that ends at or before the caret. Words come in
order, so it is the last entry that qualifies. -/
def lastBefore (caret : Int) (entries : List (Nat × Nat)) : Option (Nat × Nat) :=
  entries.foldl (fun best e => if (e.1 : Int) ≤ caret then some e else best) none

/-- A selection that ends at `stop` and is `width` wide, brought into a line. -/
def place (length : Nat) (width stop : Int) : Selection :=
  .between (clampTo length (stop - width)) (clampTo length stop)

/-- Follow a word: the caret moves as far as the word has moved. -/
def byWord? (new : Text) (sel : Selection) (entries : List (Nat × Nat)) : Option Selection :=
  (lastBefore sel.stop entries).map fun (old, now) =>
    place new.length sel.width (sel.stop + ((now : Int) - old))

/-- Behind the first occurrence of the left context. -/
def behindLeft? (new left : Text) : Option Nat :=
  if left.isEmpty then none else (Text.find? left new).map (· + left.length)

/-- Behind the first occurrence of the left context, if the right context
occurs somewhere behind that. -/
def between? (new left right : Text) : Option Nat :=
  if left.isEmpty && right.isEmpty then none
  else
    (if left.isEmpty then some 0 else Text.find? left new).bind fun start =>
      let pos := start + left.length
      if right.isEmpty then some pos else (Text.findFrom? right pos new).map fun _ => pos

/-- Before the first occurrence of the right context. -/
def beforeRight? (new right : Text) : Option Nat :=
  if right.isEmpty then none else Text.find? right new

/-- The place that the context of the caret suggests. -/
def byContext? (old new : Text) (caret : Nat) : Option Nat :=
  let left := Text.slice (caret - contextLength) caret old
  let right := (old.drop caret).take contextLength
  (behindLeft? new left).or ((between? new left right).or (beforeRight? new right))

/-- The selection in the new line for a selection in the old one. -/
def map (old new : Text) (sel : Selection) : Selection :=
  if old = new then sel
  else
    match byWord? new sel (wordMap (words old) new) with
    | some mapped => mapped
    | none =>
      match byContext? old new (clampTo old.length sel.stop).toNat with
      | none => .caret new.length
      | some pos =>
        if sel.isRange then
          .between (clampTo new.length (pos - sel.width)) (clampTo new.length pos)
        else .caret (clampTo new.length pos)

end TaskLine.Caret
