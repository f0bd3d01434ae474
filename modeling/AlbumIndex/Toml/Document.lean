import AlbumIndex.Toml.MomentTable
import AlbumIndex.Toml.Table

/-!
# TOML documents

A document is a row of lines: keys with their values, the headers of tables, comments, and blank
lines.  Arrays and tables in braces may hold each other up to a fixed depth, and a key may have so
many parts and no more.

## Main definitions

* `Toml.keyPath` — a key with its dots.
* `Toml.valueAt` — a value of so many levels at most.
* `Toml.read?` — the value that a text writes, a table or else a moment.
-/

namespace AlbumIndex
namespace Toml

open Text Reader

/-! ### Keys -/

/-- A character of a key without quotes. -/
def isKeyChar (c : Char) : Bool := c.isAlphanum || c == '-' || c == '_'

def keyPart : Reader String :=
  String.ofList <$> (basicString <|> literalString <|> takeSome isKeyChar)

/-- The number of levels that values may have, and the number that the parts of a key stay below. -/
def maxDepth : Nat := 79

/-- The parts of a key between its dots: all but the last one, and the last one. -/
def keyPath : Reader (List String × String) := do
  let parts ← separated (do blanks; let p ← keyPart; blanks; return p) (mark ".")
  if maxDepth < parts.length then failure
  else
    match parts.reverse with
    | [] => failure
    | last :: before => return (before.reverse, last)

/-! ### Values -/

/-- A value that holds no other ones. -/
def scalar : Reader Value :=
  .str <$> string <|> .moment <$> moment <|> .decimal <$> decimal <|> .integer <$> anyInteger <|>
    (do mark "true"; return .bool true) <|> (do mark "false"; return .bool false)

/-- The items of an array, given how to read one. -/
def arrayOf (item : Reader Value) : Reader Value := do
  mark "["
  let items ← optional (do
    let items ← separated (do space; let v ← item; space; return v) (mark ",")
    let _ ← optional (mark ",")
    return items)
  space
  mark "]"
  return .array (items.getD [])

/-- A table in braces, given how to read a value. -/
def inlineTableOf (item : Reader Value) : Reader Value := do
  mark "\x7b"
  let pairs ← optional (separated (do
    let key ← keyPath
    mark "="
    blanks
    let v ← item
    blanks
    return (key, v)) (mark ","))
  blanks
  mark "\x7d"
  let entries := (pairs.getD []).foldlM
    (fun es ((path, key), v) => Entries.define path key v .stated es) []
  match entries with
  | some es => return Entries.toValue es
  | none => failure

/-- A value of so many levels at most. -/
def valueAt : Nat → Reader Value
  | 0 => scalar
  | n + 1 => scalar <|> arrayOf (valueAt n) <|> inlineTableOf (valueAt n)

def value : Reader Value := valueAt maxDepth

/-! ### Lines -/

/-- A document so far: its tables, and the header that was read last. -/
structure Document where
  /-- The table of the whole document. -/
  root : Entries
  /-- The keys of the table that lines now belong to. -/
  header : List String

namespace Document

def keyLine (d : Document) : Reader Document := do
  let (path, key) ← keyPath
  mark "="
  blanks
  let v ← value
  restOfLine
  match Entries.defineBelow d.header path key v d.root with
  | some root => return { d with root }
  | none => failure

/-- The line of a header, given its brackets and what it does to the tables. -/
def headerLine (opening closing : String) (act : List String → String → Entries → Option Entries)
    (d : Document) : Reader Document := do
  mark opening
  let (path, key) ← keyPath
  mark closing
  restOfLine
  match act path key d.root with
  | some root => return ⟨root, path ++ [key]⟩
  | none => failure

/-- One line, or what is left of it after the blanks at its beginning. -/
def line (d : Document) : Reader Document := do
  match ← peek with
  | none => failure
  | some '#' => do
    comment
    newline <|> atEnd
    return d
  | some '[' =>
    if (← get).tail.head? == some '[' then d.headerLine "[[" "]]" Entries.openRow
    else d.headerLine "[" "]" Entries.openTable
  | some '\n' | some '\x0d' => do
    newline
    return d
  | some _ => d.keyLine

/-- All lines up to the end of the text, but so many at most. -/
def linesWithin : Nat → Document → Reader Document
  | 0, _ => failure
  | n + 1, d => do
    blanks
    if (← peek).isNone then return d
    else
      let d' ← d.line
      linesWithin n d'

end Document

/-- The text without a byte order mark at its beginning. -/
def withoutMark : List Char → List Char
  | '\ufeff' :: cs => cs
  | cs => cs

/-- The value that a text writes: the table of all its lines, with its moments settled. -/
def read? (text : String) : Option Value := do
  let cs := withoutMark text.toList
  let (d, _) ← Document.linesWithin (cs.length + 1) ⟨[], []⟩ cs
  (Entries.toValue d.root).settled

end Toml
end AlbumIndex
