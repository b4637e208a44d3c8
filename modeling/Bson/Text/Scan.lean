/-!
# Scanning text from left to right

A scanner consumes characters from the front of a list and gives a value, or fails. Its laws are
those of `StateT (List Char) Option`; a failed alternative starts over from where it began.
-/

namespace Bson.Text

/-- A scanner: from the characters ahead to a value and the characters left. -/
abbrev Scan := StateT (List Char) Option

namespace Scan

/-- The next character, left in place. -/
def peek? : Scan (Option Char) := fun cs => some (cs.head?, cs)

/-- The next character, if it passes a test. -/
def satisfy (p : Char → Bool) : Scan Char
  | [] => none
  | c :: rest => if p c then some (c, rest) else none

/-- A given character. -/
def char (c : Char) : Scan Unit := do let _ ← satisfy (· = c)

/-- Given characters in a row. -/
def chars (cs : List Char) : Scan Unit := cs.forM char

/-- The longest run of characters that pass a test. -/
def takeWhile (p : Char → Bool) : Scan (List Char) := fun cs =>
  some (cs.takeWhile p, cs.dropWhile p)

/-- The longest run of characters that pass a test; it must not be empty. -/
def takeWhile1 (p : Char → Bool) : Scan (List Char) := do
  let run ← takeWhile p
  if run.isEmpty then failure else pure run

/-- A given number of characters that pass a test. -/
def count (n : Nat) (p : Char → Bool) : Scan (List Char) := (List.replicate n ()).mapM fun _ =>
  satisfy p

/-- Success only at the end of the text. -/
def atEnd : Scan Unit := fun cs => if cs.isEmpty then some ((), []) else none

/-- Repeats a scanner while it succeeds, at most a given number of times. -/
def manyUpTo {α : Type} (p : Scan α) : Nat → Scan (List α)
  | 0 => pure []
  | n + 1 => do
    match ← optional p with
    | none => pure []
    | some a => return a :: (← manyUpTo p n)

/-- Repeats a scanner while it succeeds; each round is expected to consume something. -/
def many {α : Type} (p : Scan α) : Scan (List α) := fun cs => manyUpTo p cs.length cs

/-- Applies a scanner to a whole text. -/
def run? {α : Type} (p : Scan α) (s : String) : Option α :=
  match p s.toList with
  | some (a, []) => some a
  | _ => none

end Scan

end Bson.Text
