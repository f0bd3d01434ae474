/-!
# Readers

A reader takes something from the front of a text, or fails.  A reader that is tried first and fails
leaves the text to the next one.

## Main definitions

* `Reader` — what is read, and the rest of the text.
* `Reader.take`, `Reader.mark` — single characters and fixed texts.
* `Reader.many`, `Reader.separated` — repetitions.
-/

namespace AlbumIndex
namespace Toml

/-- Takes something from the front of a text, or fails. -/
abbrev Reader := StateT (List Char) Option

namespace Reader

/-- A character of a class. -/
def take (ok : Char → Bool) : Reader Char := fun
  | c :: cs => if ok c then some (c, cs) else none
  | [] => none

/-- All characters of a class up to the first other one, possibly none. -/
def takeWhile (ok : Char → Bool) : Reader (List Char) :=
  fun cs => some (cs.takeWhile ok, cs.dropWhile ok)

/-- All characters of a class up to the first other one, at least one. -/
def takeSome (ok : Char → Bool) : Reader (List Char) := do
  let c ← take ok
  let cs ← takeWhile ok
  return c :: cs

def mark (text : String) : Reader Unit := fun cs =>
  if text.toList.isPrefixOf cs then some ((), cs.drop text.length) else none

/-- The next character, which is left where it is. -/
def peek : Reader (Option Char) := fun cs => some (cs.head?, cs)

def atEnd : Reader Unit := fun cs => if cs.isEmpty then some ((), cs) else none

/-- Takes again and again until the reader fails, but so many times at most. -/
def manyWithin {α : Type} (p : Reader α) : Nat → Reader (List α)
  | 0 => pure []
  | n + 1 => (do
      let a ← p
      let rest ← manyWithin p n
      return a :: rest) <|> pure []

/-- Takes again and again until the reader fails.  A reader that always takes a character is never
stopped before. -/
def many {α : Type} (p : Reader α) : Reader (List α) := fun cs => manyWithin p cs.length cs

/-- Takes once or more. -/
def some1 {α : Type} (p : Reader α) : Reader (List α) := do
  let a ← p
  let rest ← many p
  return a :: rest

/-- Takes once or more, with separators between. -/
def separated {α : Type} (p : Reader α) (separator : Reader Unit) : Reader (List α) := do
  let a ← p
  let rest ← many (separator *> p)
  return a :: rest

end Reader
end Toml
end AlbumIndex
