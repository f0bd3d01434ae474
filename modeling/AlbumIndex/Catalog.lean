import AlbumIndex.Aliases
import AlbumIndex.Index.Build

/-!
# Catalogs

A catalog is everything that a search looks at: the numbered albums, the index over them, and the
names of people.  It never changes; whoever loads the collection again gets another catalog.

## Main definitions

* `Catalog.ofAlbums` — the catalog over a list of albums.
* `Catalog.imageAt?`, `Catalog.image?` — an image by its rank, and by its identity.
* `Catalog.albumIndex?` — the first album of a path.
* `ImageRef` — an image of a catalog together with its album.
-/

namespace AlbumIndex

/-- Albums, the index over them, and the names of people. -/
structure Catalog where
  /-- The albums in order, their images numbered. -/
  albums : List Album
  index : Index
  people : Aliases

namespace Catalog

/-- The catalog without albums. -/
def empty : Catalog := ⟨[], Index.empty, Aliases.empty⟩

/-- The catalog over albums in the order given. -/
def ofAlbums (albums : List Album) (people : Aliases) : Catalog :=
  let numbered := numberAlbums 0 albums
  ⟨numbered, Index.ofAlbums numbered, people⟩

/-- The number of images. -/
def imageCount (c : Catalog) : Nat := c.index.imageCount

/-- All images, in the order of their ranks. -/
def allImages (c : Catalog) : List Image := c.albums.flatMap Album.images

def imageIn? (c : Catalog) (l : Location) : Option Image :=
  c.albums[l.album]?.bind fun a => a.images[l.position]?

def imageAt? (c : Catalog) (rank : Rank) : Option Image :=
  (c.index.location? rank).bind c.imageIn?

/-- The image found by an identity. -/
def image? (c : Catalog) (id : ImageId) : Option Image := (c.index.rankOf? id).bind c.imageAt?

/-- The images of a keyword, those that have it as a keyword first. -/
def images (c : Catalog) (keyword : String) : List Image :=
  (c.index.images keyword).filterMap c.imageAt?

/-- The number of the first album of a path. -/
def albumIndex? (c : Catalog) (rel : String) : Option Nat :=
  c.albums.findIdx? fun a => a.rel == rel

end Catalog

/-! ### References to images -/

/-- An image, its location, and the album it lies in. -/
structure ImageRef where
  location : Location
  album : Album
  image : Image

/-- The reference to the image of a rank. -/
def Catalog.ref? (c : Catalog) (rank : Rank) : Option ImageRef := do
  let location ← c.index.location? rank
  let album ← c.albums[location.album]?
  let image ← album.images[location.position]?
  return ⟨location, album, image⟩

namespace ImageRef

/-- Two references into one catalog are the same if they name the same place. -/
def sameImage (a b : ImageRef) : Bool := a.location == b.location

/-- The path of the image: its album, a slash and its name. -/
def path (r : ImageRef) : String := r.album.rel ++ "/" ++ r.image.name

end ImageRef
end AlbumIndex
