import AlbumIndex.Disk.FileTree
import AlbumIndex.Load.Walk
import AlbumIndex.Query.Compile
import AlbumIndex.Text.Quoted
import AlbumIndex.Toml.Document

/-!
# Configuration

A library is set up by a TOML file in its root.  The file has three sections: where things lie, how
to load, and how to read queries.  Whatever is left out has a default, and so has the file itself.

## Main definitions

* `Config` — the root and the three sections; `Config.default` is without a file.
* `Config.load` — the configuration that a file gives.
* `Config.writeDefault` — a first file with the defaults.
* `Config.originals`, `Config.indexFolder`, `Config.staticFolder` — where things lie.
-/

namespace AlbumIndex

open Calendar Disk Text

/-! ### Sections -/

/-- Where things lie, from the root of the library. -/
structure PathsSection where
  /-- The photographs. -/
  originals : FilePath
  /-- The snapshots. -/
  index : FilePath
  /-- The table of aliases. -/
  staticRoot : FilePath
deriving DecidableEq

structure LoaderSection where
  /-- The number of folders that are loaded at a time. -/
  workers : Nat
  /-- Snapshots taken anew are kept on the disk. -/
  updateDisk : Bool
  /-- Small copies of the images are made after a load. -/
  minify : Bool
  /-- All snapshots are taken anew. -/
  forceReload : Bool
deriving DecidableEq

/-- How to read queries. -/
structure QuerySection where
  /-- The offset of dates, in hours. -/
  offsetHours : Int
  /-- A word stands for at most so many keywords for each of its characters. -/
  fuzzyFactor : Nat
  /-- Words inside keywords are found as well. -/
  includeSubKeywords : Bool
deriving DecidableEq

/-- The usual places. -/
def PathsSection.default : PathsSection := ⟨⟨"originals"⟩, ⟨"index"⟩, ⟨"static"⟩⟩

/-- Three folders at a time, with snapshots kept on the disk. -/
def LoaderSection.default : LoaderSection := ⟨3, true, false, false⟩

/-- The offset of the Pacific coast, and ten keywords for each character. -/
def QuerySection.default : QuerySection := ⟨-8, 10, true⟩

def LoaderSection.options (s : LoaderSection) : LoadOptions :=
  ⟨s.updateDisk, s.minify, s.forceReload⟩

def QuerySection.offset (s : QuerySection) : Offset := Offset.ofHours s.offsetHours

def QuerySection.options (s : QuerySection) : Query.Options :=
  { expandPeople := false
    mode := if s.includeSubKeywords then .ranked else .literal
    fuzzyFactor := s.fuzzyFactor
    offset := s.offset
    exclude := [] }

/-! ### Reading sections -/

namespace Section

/-- A section is a table with any keys, or an array of no more values than there are fields. -/
def hasForm (fields : Nat) : Toml.Value → Bool
  | .table _ => true
  | .array items => items.length ≤ fields
  | _ => false

/-- The value of a field: by its name in a table, by its position in an array. -/
def field? (v : Toml.Value) (position : Nat) (name : String) : Option Toml.Value :=
  match v with
  | .table entries => entries.lookup name
  | .array items => items[position]?
  | _ => none

/-- A field that is left out has its default; one that is there has to be of the right kind. -/
def readField {α : Type} (read : Toml.Value → Option α) (v : Toml.Value) (position : Nat)
    (name : String) (default : α) : Option α :=
  match field? v position name with
  | none => some default
  | some f => read f

/-- A path is a string, or a date or time as it is written. -/
def path? : Toml.Value → Option FilePath
  | .str s => some ⟨s⟩
  | .moment m => some ⟨m.text⟩
  | _ => none

/-- A number of things. -/
def count? : Toml.Value → Option Nat
  | .integer n => if 0 ≤ n then some n.toNat else none
  | _ => none

/-- A whole number of 32 bits. -/
def hours? : Toml.Value → Option Int
  | .integer n => if Int32.minValue.toInt ≤ n ∧ n ≤ Int32.maxValue.toInt then some n else none
  | _ => none

def flag? : Toml.Value → Option Bool
  | .bool b => some b
  | _ => none

end Section

open Section

def PathsSection.read? (v : Toml.Value) : Option PathsSection := do
  if !hasForm 3 v then failure
  let d := PathsSection.default
  let originals ← readField path? v 0 "originals" d.originals
  let index ← readField path? v 1 "index" d.index
  let staticRoot ← readField path? v 2 "static_root" d.staticRoot
  return ⟨originals, index, staticRoot⟩

def LoaderSection.read? (v : Toml.Value) : Option LoaderSection := do
  if !hasForm 4 v then failure
  let d := LoaderSection.default
  let workers ← readField count? v 0 "workers" d.workers
  let updateDisk ← readField flag? v 1 "update_disk" d.updateDisk
  let minify ← readField flag? v 2 "minify" d.minify
  let forceReload ← readField flag? v 3 "force_reload" d.forceReload
  return ⟨workers, updateDisk, minify, forceReload⟩

def QuerySection.read? (v : Toml.Value) : Option QuerySection := do
  if !hasForm 3 v then failure
  let d := QuerySection.default
  let offsetHours ← readField hours? v 0 "timezone_offset_hours" d.offsetHours
  let fuzzyFactor ← readField count? v 1 "fuzzy_expansion_factor" d.fuzzyFactor
  let includeSubKeywords ← readField flag? v 2 "include_subkeywords" d.includeSubKeywords
  return ⟨offsetHours, fuzzyFactor, includeSubKeywords⟩

/-! ### Configurations -/

structure Config where
  /-- The folder that the places are relative to. -/
  root : FilePath
  paths : PathsSection
  loader : LoaderSection
  query : QuerySection
deriving DecidableEq

/-- Why a configuration could not be loaded or written. -/
inductive ConfigError where
  /-- The file is there, but is no readable text. -/
  | cannotRead (path : FilePath) (cause : Trouble)
  /-- The file is no TOML document. -/
  | cannotParse (path : FilePath)
  /-- A field of the section is not of the right kind. -/
  | badSection (name : String)
  /-- The folder for a first file cannot be made. -/
  | cannotCreateFolder (path : FilePath) (cause : Trouble)
  /-- A first file cannot be written. -/
  | cannotWrite (path : FilePath) (cause : Trouble)
deriving DecidableEq

namespace ConfigError

/-- The words for a failure, without its cause. -/
def message : ConfigError → String
  | .cannotRead path _ => "Failed to read " ++ quoted path.text
  | .cannotParse path => "Failed to parse " ++ quoted path.text
  | .badSection name => "Failed to parse [" ++ name ++ "] section"
  | .cannotCreateFolder path _ => "Failed to create " ++ quoted path.text
  | .cannotWrite path _ => "Failed to write " ++ quoted path.text

/-- The cause of a failure, if the disk has one. -/
def cause? : ConfigError → Option Trouble
  | .cannotRead _ cause => some cause
  | .cannotCreateFolder _ cause => some cause
  | .cannotWrite _ cause => some cause
  | .cannotParse _ | .badSection _ => none

end ConfigError

namespace Config

/-- The name of the file in the root of a library. -/
def fileName : String := "config.toml"

def default (root : FilePath) : Config := ⟨root, .default, .default, .default⟩

/-- A section of a document, or its default if the document has none. -/
def readSection {α : Type} (document : Toml.Value) (name : String)
    (read? : Toml.Value → Option α) (default : α) : Except ConfigError α :=
  match document.get? name with
  | none => .ok default
  | some v =>
    match read? v with
    | some s => .ok s
    | none => .error (.badSection name)

/-- The configuration that a document gives; the sections are read in order. -/
def ofDocument (root : FilePath) (document : Toml.Value) : Except ConfigError Config := do
  let paths ← readSection document "paths" PathsSection.read? .default
  let loader ← readSection document "loader" LoaderSection.read? .default
  let query ← readSection document "query" QuerySection.read? .default
  return ⟨root, paths, loader, query⟩

/-- The configuration of the library in a folder, from the given file or else from the one in that
folder.  If there is no such file, everything has its default. -/
def load (tree : FileTree) (root : FilePath) (file : Option FilePath) : Except ConfigError Config :=
  let path := file.getD (root.join fileName)
  if !tree.exists? path then .ok (default root)
  else
    match tree.readText path with
    | .error cause => .error (.cannotRead path cause)
    | .ok text =>
      match Toml.read? text with
      | none => .error (.cannotParse path)
      | some document => ofDocument root document

/-- The text of a first file. -/
def defaultText : String :=
"[paths]
originals = \"originals\"  # Photo tree to index
index = \"index\"          # Per-directory snapshots (index.bin + index.json)
static_root = \"static\"   # Holds synonyms.txt

[loader]
workers = 3
update_disk = true   # Persist rebuilt snapshots
minify = false
force_reload = false # Rebuild every directory on each load

[query]
timezone_offset_hours = -8  # Fixed offset for date tokens
fuzzy_expansion_factor = 10 # Max fuzzy matches per token character
include_subkeywords = true
"

/-- Writes a first file into a folder, unless it has one; tells whether it was written. -/
def writeDefault (tree : FileTree) (root : FilePath) : FileTree × Except ConfigError Bool :=
  let path := root.join fileName
  if tree.exists? path then (tree, .ok false)
  else
    match tree.makeFolders root with
    | (tree, some cause) => (tree, .error (.cannotCreateFolder root cause))
    | (tree, none) =>
      match tree.write path defaultText.toUTF8.data.toList with
      | .ok tree => (tree, .ok true)
      | .error cause => (tree, .error (.cannotWrite path cause))

/-- A place of the configuration as seen from the current folder. -/
def resolve (c : Config) (p : FilePath) : FilePath := if p.isAbsolute then p else c.root.join p.text

/-- The root of the collection. -/
def originals (c : Config) : FilePath := c.resolve c.paths.originals

/-- Where the snapshots lie. -/
def indexFolder (c : Config) : FilePath := c.resolve c.paths.index

/-- Where the table of aliases lies. -/
def staticFolder (c : Config) : FilePath := c.resolve c.paths.staticRoot

end Config
end AlbumIndex
