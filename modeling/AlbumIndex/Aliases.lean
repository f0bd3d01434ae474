import AlbumIndex.Text.Pieces
import Std.Data.TreeMap

/-!
# Names of people

People are tagged under several spellings of their names.  The table of aliases lists people, each
with all spellings; a spelling that several people share belongs to the first of them.

## Main definitions

* `Aliases` — the people, and the person that each spelling belongs to.
* `Aliases.add` — one person more.
* `Aliases.parse` — the table written in a text, one person on a line.
* `Aliases.lookup?` — all spellings of the person known under one of them.
-/

namespace AlbumIndex

open Text

/-- People and their names. -/
structure Aliases where
  /-- The names of each person, in the order in which people were added. -/
  people : Array (List String)
  /-- The number of the first person of each name. -/
  personOf : Std.TreeMap String Nat

namespace Aliases

def empty : Aliases := ⟨#[], ∅⟩

def size (a : Aliases) : Nat := a.people.size

/-- Nobody is listed. -/
def isEmpty (a : Aliases) : Bool := a.people.isEmpty

/-- One person more, under all of the given names; a person without names is not added. -/
def add (a : Aliases) (names : List String) : Aliases :=
  if names.isEmpty then a
  else
    { people := a.people.push names
      personOf := names.foldl (fun t name => t.insertIfNew name a.people.size) a.personOf }

/-- The names on a line: its stretches between commas, trimmed, without the empty ones. -/
def namesOfLine (line : List Char) : List String :=
  (((pieces (· == ',') line).map trim).filter fun n => !n.isEmpty).map String.ofList

/-- The table that a text writes, one person on a line. -/
def parse (text : String) : Aliases :=
  (lines text.toList).foldl (fun a line => a.add (namesOfLine line)) empty

/-- All names of the person known under a name. -/
def lookup? (a : Aliases) (name : String) : Option (List String) :=
  a.personOf[name]?.bind fun i => a.people[i]?

end Aliases
end AlbumIndex
