import AlbumIndex.Number.Binary32

/-!
# JSON texts

The values that the library writes as JSON, and the two layouts they are written in: compact, on one
line without blanks, and pretty, with one entry on a line and two spaces for each level.  In a
string the quote, the backslash and the controls are escaped, and all else is written as it is.

## Main definitions

* `Json` — a value; an object keeps its fields in the order given.
* `Json.compact`, `Json.pretty` — the two layouts.
* `floatLayout` — how 32-bit numbers are written.
-/

namespace AlbumIndex

open Text Number

/-- A value to be written as JSON. -/
inductive Json where
  | null
  | bool (b : Bool)
  | int (n : Int)
  /-- A 32-bit binary number. -/
  | float (x : Binary32)
  | str (s : String)
  | arr (items : List Json)
  /-- An object; its fields are written in this order. -/
  | obj (fields : List (String × Json))

namespace Json

/-- The value, or `null` if there is none. -/
def ofOption {α : Type} (f : α → Json) : Option α → Json
  | some a => f a
  | none => .null

def strings (items : List String) : Json := .arr (items.map .str)

/-! ### Scalars -/

/-- 32-bit numbers are written in full from a millionth up to thirteen places before the point,
always with a point; not-a-number and the infinities have no JSON form. -/
def floatLayout : Layout := ⟨.toEven, some (-5), some 13, true, "null", "null"⟩

/-- The text of a 32-bit number. -/
def floatText (x : Binary32) : String :=
  match x.classify with
  | .finite _ _ => floatLayout.write x
  | _ => "null"

/-- How one character is written inside a string. -/
def escapeChar (c : Char) : List Char :=
  if c = '"' || c = '\\' then ['\\', c]
  else if c = '\n' then ['\\', 'n']
  else if c = '\r' then ['\\', 'r']
  else if c = '\t' then ['\\', 't']
  else if c.toNat = 8 then ['\\', 'b']
  else if c.toNat = 12 then ['\\', 'f']
  else if c.toNat < 32 then
    ['\\', 'u', '0', '0', Nat.digitChar (c.toNat / 16), Nat.digitChar (c.toNat % 16)]
  else [c]

/-- A string between quotes. -/
def stringText (s : String) : String :=
  String.ofList ('"' :: (s.toList.flatMap escapeChar ++ ['"']))

/-! ### Layouts -/

mutual

/-- The value on one line, without blanks. -/
def compact : Json → String
  | .null => "null"
  | .bool b => if b then "true" else "false"
  | .int n => String.ofList (intDigits n)
  | .float x => floatText x
  | .str s => stringText s
  | .arr items => "[" ++ String.intercalate "," (compactItems items) ++ "]"
  | .obj fields => "\x7b" ++ String.intercalate "," (compactFields fields) ++ "\x7d"

/-- The items of an array, each on its own. -/
def compactItems : List Json → List String
  | [] => []
  | v :: vs => compact v :: compactItems vs

/-- The fields of an object, each on its own. -/
def compactFields : List (String × Json) → List String
  | [] => []
  | (k, v) :: fs => (stringText k ++ ":" ++ compact v) :: compactFields fs

end

/-- A new line with the indentation of a level. -/
def newLine (level : Nat) : String := String.ofList ('\n' :: List.replicate (2 * level) ' ')

/-- Entries between brackets, one on a line; brackets without entries stay together. -/
def bracketed (opening closing : String) (level : Nat) (entries : List String) : String :=
  if entries.isEmpty then opening ++ closing
  else opening ++ newLine (level + 1) ++ String.intercalate ("," ++ newLine (level + 1)) entries ++
    newLine level ++ closing

mutual

/-- The value with one entry on a line, at a level of indentation. -/
def prettyAt (level : Nat) : Json → String
  | .arr items => bracketed "[" "]" level (prettyItems (level + 1) items)
  | .obj fields => bracketed "\x7b" "\x7d" level (prettyFields (level + 1) fields)
  | .null => "null"
  | .bool b => if b then "true" else "false"
  | .int n => String.ofList (intDigits n)
  | .float x => floatText x
  | .str s => stringText s

/-- The items of an array, each on its own. -/
def prettyItems (level : Nat) : List Json → List String
  | [] => []
  | v :: vs => prettyAt level v :: prettyItems level vs

/-- The fields of an object, each on its own. -/
def prettyFields (level : Nat) : List (String × Json) → List String
  | [] => []
  | (k, v) :: fs => (stringText k ++ ": " ++ prettyAt level v) :: prettyFields level fs

end

/-- The value with one entry on a line and two spaces for each level. -/
def pretty (v : Json) : String := prettyAt 0 v

end Json
end AlbumIndex
