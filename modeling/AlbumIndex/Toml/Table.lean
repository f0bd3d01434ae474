import AlbumIndex.Toml.Value

/-!
# Tables in the making

The tables of a document are put together line by line.  A table is stated by its header or by its
braces, and then only once; it is dotted if the dots of a key brought it about, and implied if the
header of a table below it did.  Keys may go on with a dotted table, and a header may still state an
implied one, but a stated table is closed to both.

## Main definitions

* `Item`, `Entries` — what a key stands for so far.
* `Entries.define` — a key with dots, and its value.
* `Entries.openTable`, `Entries.openRow` — the headers of a table and of a row of tables.
* `Entries.toValue` — the finished table.
-/

namespace AlbumIndex
namespace Toml

/-- How a table came about. -/
inductive TableKind where
  /-- A header or braces state it. -/
  | stated
  /-- The header of a table below it implies it. -/
  | implied
  /-- The dots of a key brought it about. -/
  | dotted
deriving DecidableEq, Repr

/-- What a key stands for. -/
inductive Item where
  /-- A finished value. -/
  | value (v : Value)
  | table (kind : TableKind) (entries : List (String × Item))
  /-- A row of tables, of which the last one is still open. -/
  | rows (tables : List (List (String × Item)))

/-- The keys of a table, in the order in which they came; a header brings its key to the end. -/
abbrev Entries := List (String × Item)

namespace Entries

/-- The entries with that of a key changed, or added; `f` gets what the key stands for so far. -/
def alter (key : String) (f : Option Item → Option Item) : Entries → Option Entries
  | [] => (f none).map fun item => [(key, item)]
  | (k, item) :: rest =>
    if k = key then (f (some item)).map fun item' => (k, item') :: rest
    else (alter key f rest).map fun rest' => (k, item) :: rest'

/-- The entries with the table that a row of keys leads to changed by `f`.  Missing tables on the
way are made, dotted or implied.  A row of tables is entered at its last one.  Dots do not lead into
a stated table. -/
def inside (dotted : Bool) :
    List String → (TableKind → Entries → Option Entries) → TableKind → Entries → Option Entries
  | [], f, kind, entries => f kind entries
  | key :: path, f, _, entries => alter key
    (fun
      | none =>
        let kind := if dotted then .dotted else .implied
        (inside dotted path f kind []).map (.table kind)
      | some (.value _) => none
      | some (.rows tables) =>
        match tables.getLast? with
        | none => none
        | some last =>
          (inside dotted path f .stated last).map fun t => .rows (tables.dropLast ++ [t])
      | some (.table kind es) =>
        if dotted && kind == .stated then none
        else (inside dotted path f kind es).map (.table kind))
    entries

/-- A new key with its value, in a table that a key with dots leads to: a table that dots brought
about if there are dots, the table itself if there are none. -/
def define (path : List String) (key : String) (v : Value) (kind : TableKind) (entries : Entries) :
    Option Entries :=
  inside true path
    (fun kind es =>
      if (kind == .dotted) == path.isEmpty then none
      else alter key (fun | none => some (.value v) | some _ => none) es)
    kind entries

/-- The header of a table: a new one, or one that was implied so far.  In both cases its key comes
after the other ones. -/
def openTable (path : List String) (key : String) (entries : Entries) : Option Entries :=
  inside false path
    (fun _ es =>
      match es.lookup key with
      | none => some (es ++ [(key, .table .stated [])])
      | some (.table .implied below) =>
        some (es.filter (fun e => e.1 != key) ++ [(key, .table .stated below)])
      | some _ => none)
    .stated entries

/-- The header of one more table of a row. -/
def openRow (path : List String) (key : String) (entries : Entries) : Option Entries :=
  inside false path
    (fun _ => alter key
      (fun
        | none => some (.rows [[]])
        | some (.rows tables) => some (.rows (tables ++ [[]]))
        | some _ => none))
    .stated entries

/-- A key with dots and its value below the header that was read last. -/
def defineBelow (header path : List String) (key : String) (v : Value) (entries : Entries) :
    Option Entries :=
  inside false header (define path key v) .stated entries

end Entries

mutual

def Item.toValue : Item → Value
  | .value v => v
  | .table _ entries => .table (entriesToValues entries)
  | .rows tables => .array (rowsToValues tables)

def entriesToValues : List (String × Item) → List (String × Value)
  | [] => []
  | (key, item) :: rest => (key, item.toValue) :: entriesToValues rest

/-- The values of a row of tables. -/
def rowsToValues : List (List (String × Item)) → List Value
  | [] => []
  | entries :: rest => .table (entriesToValues entries) :: rowsToValues rest

end

def Entries.toValue (entries : Entries) : Value := .table (entriesToValues entries)

end Toml
end AlbumIndex
