import AlbumIndex.Catalog
import AlbumIndex.Config
import AlbumIndex.Query.Search

/-!
# Libraries

A library is a configured collection together with the catalog that is in use.  A load makes a new
catalog and puts it in the place of the one before; a load that fails changes nothing.  Catalogs are
values, so whoever holds an older one, or searches in it, goes on with it undisturbed.

## Main definitions

* `Minifier` — makes small copies of the images of a catalog.
* `Library`, `Library.new`, `Library.swap` — a library and its catalog.
* `Library.load`, `Library.reload` — a new catalog for it.
-/

namespace AlbumIndex

open Disk

/-- Makes small copies of the images of a catalog and tells how many, or fails. -/
abbrev Minifier := Catalog → Option Nat

/-- A configured collection and the catalog in use. -/
structure Library where
  config : Config
  extractor : Extractor
  minifier : Option Minifier
  current : Catalog

structure LoadReport where
  stats : LoadStats
  /-- The files that the extractor looked into. -/
  calls : List FilePath
  /-- The catalog that the minifier was given, and what it made of it. -/
  minified : Option (Catalog × Option Nat)

namespace Library

/-- A library that has not been loaded yet. -/
def new (config : Config) (extractor : Extractor) (minifier : Option Minifier) : Library :=
  ⟨config, extractor, minifier, .empty⟩

/-- Another catalog in use. -/
def swap (lib : Library) (c : Catalog) : Library := { lib with current := c }

def aliasesName : String := "synonyms.txt"

/-- The table of aliases in a folder; nobody if there is no readable file. -/
def aliasesIn (tree : FileTree) (folder : FilePath) : Aliases :=
  match tree.readText (folder.join aliasesName) with
  | .ok text => Aliases.parse text
  | .error _ => .empty

/-- Where the collection lies, and what it is loaded with. -/
def loader (lib : Library) : Loader :=
  { originals := lib.config.originals
    store := ⟨lib.config.indexFolder⟩
    offset := lib.config.query.offset
    extractor := lib.extractor }

/-- The catalog of loaded albums, with the aliases found on the disk. -/
def catalogOf (lib : Library) (loaded : Loaded) : Catalog :=
  Catalog.ofAlbums loaded.albums (aliasesIn loaded.tree lib.config.staticFolder)

/-- The library loaded: the library with its new catalog, the report, and the disk afterwards. -/
def load (lib : Library) (opts : LoadOptions) (tree : FileTree) :
    Except LoadError (Library × LoadReport × FileTree) := do
  let loaded ← lib.loader.load opts tree
  let c := lib.catalogOf loaded
  let minified := if opts.minify then lib.minifier.map fun minify => (c, minify c) else none
  return (lib.swap c, ⟨loaded.stats, loaded.calls, minified⟩, loaded.tree)

/-- The library loaded again, with snapshots kept and small copies made. -/
def reload (lib : Library) (tree : FileTree) :
    Except LoadError (Library × LoadReport × FileTree) :=
  lib.load ⟨true, true, false⟩ tree

/-- The query that a text writes, begun on the catalog in use. -/
def query (lib : Library) (text : String) (opts : Query.Options) :
    Except Calendar.OutOfRange Query.Search :=
  Query.Search.ofText lib.current text opts

end Library
end AlbumIndex
