import AlbumIndex.Proofs.Load.Again
import AlbumIndex.Proofs.Load.Sight
import AlbumIndex.Proofs.Snapshot.Refresh

/-!
# Loads that forget

A forced load takes every snapshot anew.  What an old snapshot knows still gets into the new one
where the extractor leaves a gap.  An extractor that finds out everything about each image leaves
none, so then nothing of the old snapshots is left: each album is made from the listing of its folder
and from what the extractor finds in the images there.  It does not matter which snapshots were
stored before, how old they were or what they held, nor which of the two loads keeps its own.  Only
a collection whose paths lead through the snapshots could tell.

Videos keep what their first item says, but they have no place in an album.

## Main definitions

* `Findings.isComplete`, `Loader.FindsAll` — everything is found out about an image, and about all
  images of a collection.
* `imagesFound`, `Loader.albumFound` — the images and the album of a folder, as they are found.

## Main results

* `Entry.extract_of_isComplete` — nothing is filled in where everything is found.
* `Turn.album_of_forced` — the album of a forced turn is the one that is found.
* `Library.forced_load_forgets` — **a forced load does not depend on the snapshots stored before.**
-/

namespace AlbumIndex

open Calendar Disk

/-! ### Complete findings -/

/-- All that can be known about an image is known. -/
def ImageAttributes.isComplete (a : ImageAttributes) : Bool :=
  a.height.isSome && a.width.isSome && a.rotation.isSome && a.stereo.isSome

/-- Everything has been found out about an image: it has keywords, a time and all attributes. -/
def Findings.isComplete (f : Findings) : Bool :=
  !f.keywords.isEmpty && f.itemMillis.isSome && f.image.any ImageAttributes.isComplete

theorem ImageAttributes.orElse_of_isComplete {a : ImageAttributes} (h : a.isComplete = true)
    (old : ImageAttributes) : a.orElse old = a := by
  obtain ⟨height, width, rotation, stereo⟩ := a
  simp only [isComplete, Bool.and_eq_true, Option.isSome_iff_exists] at h
  obtain ⟨⟨⟨⟨_, rfl⟩, _, rfl⟩, _, rfl⟩, _, rfl⟩ := h
  rfl

/-- Nothing is filled in where everything has been found. -/
theorem Item.mergeImage_of_isComplete {f : Findings} (h : f.isComplete = true) (item old : Item) :
    (item.extracted f).mergeImage old = item.extracted f := by
  obtain ⟨keywords, itemMillis, image⟩ := f
  simp only [Findings.isComplete, Bool.and_eq_true, Option.isSome_iff_exists] at h
  obtain ⟨⟨hkeywords, time, htime⟩, himage⟩ := h
  subst htime
  cases image with
  | none => cases himage
  | some a =>
    have hfilled : ∀ o : ImageAttributes, a.orElse o = a :=
      ImageAttributes.orElse_of_isComplete himage
    have hempty : keywords.isEmpty = false := by simpa using hkeywords
    simp only [mergeImage, extracted, hempty]
    cases old.image with
    | none => rfl
    | some o =>
      simp only [Option.getD_some, hfilled]
      rfl

/-- The extractor finds out everything about the image of an entry. -/
def Extractor.FindsAll (extractor : Extractor) (folder : FilePath) (e : Entry) : Prop :=
  e.kind = .image → (extractor (folder.join e.name) e.newItem).isComplete = true

/-- **Nothing of an older item is left** where everything is found. -/
theorem Entry.extract_of_isComplete {e : Entry} {folder : FilePath} {extractor : Extractor}
    (hkind : e.kind = .image) (hfinds : extractor.FindsAll folder e) (old : Option Item) :
    e.extract folder old extractor =
      e.newItem.extracted (extractor (folder.join e.name) e.newItem) := by
  rw [Entry.extract_image hkind]
  cases old with
  | none => rfl
  | some o => exact Item.mergeImage_of_isComplete (hfinds hkind) _ o

/-! ### Forced turns -/

/-- The images of a listing, as an extractor finds them. -/
def imagesFound (folder : FilePath) (entries : List Entry) (extractor : Extractor) : List Image :=
  ((sortedByName entries).filter fun e => e.kind == .image).map fun e =>
    (e.newItem.extracted (extractor (folder.join e.name) e.newItem)).toImage

theorem Snapshot.nextItem_of_forced (folder : FilePath) (old : Snapshot) (extractor : Extractor)
    (e : Entry) :
    nextItem folder old extractor true e = e.extract folder (old.item? e.name) extractor := by
  have hkept : old.kept? true e = none := by
    rw [kept?, Option.filter_eq_none_iff]
    intro o _
    exact Bool.false_ne_true
  rw [nextItem, hkept, Option.getD_none]

/-- The images of a snapshot taken anew by force are those that are found. -/
theorem Snapshot.images_refresh {folder : FilePath} {entries : List Entry} {extractor : Extractor}
    (hfinds : ∀ e ∈ entries, extractor.FindsAll folder e) (old : Snapshot) :
    (old.refresh folder entries extractor true).snapshot.images =
      imagesFound folder entries extractor := by
  have hitem : nextItem folder old extractor true =
      fun e => e.extract folder (old.item? e.name) extractor :=
    funext (nextItem_of_forced folder old extractor)
  -- an image or video whose item is no video is an image
  have himage : ∀ e : Entry,
      (!(e.extract folder (old.item? e.name) extractor).isVideo && e.isMedia) =
        (e.kind == .image) := by
    intro e
    rw [Entry.isVideo_extract, Entry.isMedia]
    cases e.kind <;> rfl
  rw [refresh_eq, images, hitem, List.filter_map, List.filter_filter, imagesFound, List.map_map]
  simp only [Function.comp_apply, himage]
  apply List.map_congr_left
  intro e he
  obtain ⟨hmem, hkind⟩ := List.mem_filter.1 he
  have hlisted : e ∈ entries := (List.mergeSort_perm entries _).subset hmem
  rw [Function.comp_apply, Entry.extract_of_isComplete (beq_iff_eq.1 hkind) (hfinds e hlisted)]

namespace Loader

variable {l : Loader} {opts : LoadOptions} {tree : FileTree}

/-- The extractor finds out everything about each image that a walk meets. -/
def FindsAll (l : Loader) (tree : FileTree) : Prop :=
  ∀ s ∈ l.stops tree, ∀ e ∈ s.entries.getD [],
    l.extractor.FindsAll (folderPath l.originals s.rel) e

/-- The album of a listed folder, with the images that are found. -/
def albumFound (l : Loader) (s : Stop) : Except OutOfRange Album := do
  (s.entries.getD []).forM fun e => e.modified.ensureInRange
  Album.ofImages s.rel (storedInstant (some s.modified.round.toMillis))
    (imagesFound (folderPath l.originals s.rel) (s.entries.getD []) l.extractor) l.offset

end Loader

/-- **The album of a forced turn** is the one that is found, whatever the disk holds. -/
theorem Turn.album_of_forced {t : Turn} {l : Loader} {opts : LoadOptions} (hforce : opts.force = true)
    (hfinds : ∀ e ∈ t.entries, l.extractor.FindsAll (folderPath l.originals t.rel) e) :
    t.album l opts = l.albumFound ⟨t.rel, t.modified, some t.entries⟩ := by
  have hstale : t.isStale l opts = true := by rw [isStale, hforce, Bool.or_true]
  have himages : (t.snapshot l opts).images =
      imagesFound (folderPath l.originals t.rel) t.entries l.extractor := by
    rw [snapshot, refreshed, Loader.upToDate, hforce, Bool.or_true, if_pos rfl]
    exact Snapshot.images_refresh hfinds _
  have halbum : (t.snapshot l opts).materialize t.rel l.offset =
      Album.ofImages t.rel (storedInstant (t.snapshot l opts).stamp) (t.snapshot l opts).images
        l.offset := rfl
  rw [album, halbum, stamp_snapshot hstale, himages]
  rfl

namespace Loader

variable {l : Loader} {opts : LoadOptions} {tree : FileTree}

/-- The albums of the turns of a forced load are those that are found at its stops. -/
theorem map_album_turns (hforce : opts.force = true) (hfinds : l.FindsAll tree) :
    (l.turns opts tree (l.stops tree)).map (fun t => t.album l opts) =
      ((l.stops tree).filter fun s => s.entries.isSome).map l.albumFound := by
  rw [← map_turns l opts tree, List.map_map]
  apply List.map_congr_left
  intro t ht
  have hstop := mem_stops_of_mem_turns ht
  exact Turn.album_of_forced hforce (hfinds _ hstop)

/-- **A forced load**, if it makes the stops of a walk over the disk as it is: it succeeds if the
calendar has the time of the first stop and the albums that are found can be made, and these are its
albums. -/
theorem load_of_forced (htree : tree.WellFormed) (hlive : l.stopsOn opts tree = l.stops tree)
    (hforce : opts.force = true) (hfinds : l.FindsAll tree) (albums : List Album) :
    (∃ loaded, l.load opts tree = .ok loaded ∧ loaded.albums = albums) ↔
      (∃ first ∈ ((l.stops tree).map Stop.folder).head?, Instant.InRange first.2.seconds) ∧
        ∃ found : List Album,
          ((l.stops tree).filter fun s => s.entries.isSome).map l.albumFound = found.map .ok ∧
            albums = found.mergeSort Album.le := by
  have hturns : l.turnsOf opts tree = l.turns opts tree (l.stops tree) := by rw [turnsOf, hlive]
  rw [← map_album_turns hforce hfinds, ← hturns, head?_stops]
  constructor
  · rintro ⟨loaded, hload, rfl⟩
    obtain ⟨root, hroot⟩ := exists_stat_of_load hload
    obtain ⟨hrange, found, hfound, rfl⟩ := (load_eq_ok_iff htree hroot).1 hload
    exact ⟨⟨("", root.modified), by rw [hroot]; rfl, hrange⟩, found, hfound, rfl⟩
  · rintro ⟨⟨first, hfirst, hrange⟩, found, hfound, rfl⟩
    cases hroot : tree.stat l.originals with
    | error cause => rw [hroot] at hfirst; cases hfirst
    | ok root =>
      rw [hroot] at hfirst
      cases hfirst
      exact ⟨_, (load_eq_ok_iff htree hroot).2 ⟨hrange, found, hfound, rfl⟩, rfl⟩

/-- Forced loads of a collection that looks the same have the same albums. -/
theorem albums_of_forced {opts' : LoadOptions} {tree' : FileTree} (htree : tree.WellFormed)
    (htree' : tree'.WellFormed) (hlive : l.stopsOn opts tree = l.stops tree)
    (hlive' : l.stopsOn opts' tree' = l.stops tree') (hsame : l.stops tree' = l.stops tree)
    (hforce : opts.force = true) (hforce' : opts'.force = true) (hfinds : l.FindsAll tree)
    (albums : List Album) :
    (∃ loaded, l.load opts' tree' = .ok loaded ∧ loaded.albums = albums) ↔
      ∃ loaded, l.load opts tree = .ok loaded ∧ loaded.albums = albums := by
  have hfinds' : l.FindsAll tree' := by
    intro s hs
    rw [hsame] at hs
    exact hfinds s hs
  rw [load_of_forced htree' hlive' hforce' hfinds', load_of_forced htree hlive hforce hfinds, hsame]

end Loader

/-! ### Libraries -/

namespace Library

/-- **A forced load does not depend on the snapshots stored before.**  Two disks are the same at
places that the paths of the collection keep to; elsewhere, as where the snapshots lie, they may
hold what they like.  Then forced loads with an extractor that finds out everything about each image
either both fail, or both give catalogs with the same albums, their images with all fields,
identities and ranks, and the same index.  Nor does it matter which catalog was in use before, and
whether snapshots are kept; but where they are, the collection has to lie beside them. -/
theorem forced_load_forgets (lib : Library) (before : Catalog) (opts opts' : LoadOptions)
    (tree tree' : FileTree) (htree : tree.WellFormed) (htree' : tree'.WellFormed)
    (keep : Place → Bool) (hapart : lib.loader.KeepsTo tree keep)
    (hapart' : lib.loader.KeepsTo tree' keep) (hcurrent : tree'.current = tree.current)
    (hsame : (tree'.only keep).nodes = (tree.only keep).nodes)
    (hbeside : opts.updateDisk = true → lib.loader.Beside tree)
    (hbeside' : opts'.updateDisk = true → lib.loader.Beside tree') (hforce : opts.force = true)
    (hforce' : opts'.force = true) (hfinds : lib.loader.FindsAll tree) :
    ((∃ outcome, (lib.swap before).load opts' tree' = .ok outcome) ↔
        ∃ outcome, lib.load opts tree = .ok outcome) ∧
      ∀ lib₁ report₁ disk₁ lib₂ report₂ disk₂, lib.load opts tree = .ok (lib₁, report₁, disk₁) →
        (lib.swap before).load opts' tree' = .ok (lib₂, report₂, disk₂) →
        lib₂.current.albums = lib₁.current.albums ∧ lib₂.current.index = lib₁.current.index := by
  have hstops := Loader.stops_eq_of_keepsTo htree htree' hapart hapart' hcurrent hsame
  have halbums := Loader.albums_of_forced htree htree' (Loader.stopsOn_eq_stops htree hbeside)
    (Loader.stopsOn_eq_stops htree' hbeside') hstops hforce hforce' hfinds
  have hloader : (lib.swap before).loader = lib.loader := rfl
  simp only [load_eq, hloader, exists_map_eq_ok_iff]
  refine ⟨⟨?_, ?_⟩, ?_⟩
  · rintro ⟨loaded, hload⟩
    obtain ⟨other, hother, -⟩ := (halbums loaded.albums).1 ⟨loaded, hload, rfl⟩
    exact ⟨other, hother⟩
  · rintro ⟨loaded, hload⟩
    obtain ⟨other, hother, -⟩ := (halbums loaded.albums).2 ⟨loaded, hload, rfl⟩
    exact ⟨other, hother⟩
  · intro lib₁ report₁ disk₁ lib₂ report₂ disk₂ hfirst hsecond
    obtain ⟨loaded, hload, houtcome⟩ := map_eq_ok_iff.1 hfirst
    obtain ⟨loaded', hload', houtcome'⟩ := map_eq_ok_iff.1 hsecond
    obtain ⟨other, hother, hfound⟩ := (halbums loaded.albums).2 ⟨loaded, hload, rfl⟩
    obtain rfl : other = loaded' := Except.ok.inj (hother.symm.trans hload')
    cases houtcome
    cases houtcome'
    simp only [swap, catalogOf, Catalog.ofAlbums, hfound, and_self]

/-- A library whose extractor finds the same in every image, and everything. -/
def completeSample : Library :=
  { sample with extractor := fun _ _ =>
      ⟨["k"], some 7000, some ⟨some 2, some 3, some 0, some ⟨⟨0⟩, ⟨0⟩, ⟨0⟩, ⟨0⟩⟩⟩⟩ }

/-- What was stored of the folder `a` at another time: its image with other keywords, a file that is
gone, and a video of the image's name. -/
def oldSnapshot : Snapshot :=
  ⟨some 1000, [⟨"x.jpg", some 1000, some 1000, ["old"], some .unknown, false⟩,
    ⟨"gone.jpg", some 1000, none, ["gone"], none, false⟩,
    ⟨"x.jpg", some 1000, some 1000, ["video"], none, true⟩], []⟩

/-- The disk with one image, and with the old snapshot of its folder. -/
def storedDisk : FileTree :=
  imageDisk [([.text "i"], .folder .epoch), ([.text "i", .text "a"], .folder .epoch),
    ([.text "i", .text "a", .text "index.bin"], .file oldSnapshot.encode .epoch)]

/-- The places where no snapshots are kept. -/
def besideSnapshots (place : Place) : Bool := !([.text "i"] : Place).isPrefixOf place

/-- Where there are plain files and folders only, the sample collection lies beside the snapshots. -/
theorem keepsTo_besideSnapshots {tree : FileTree} {time : Instant}
    (hplain : ∀ entry ∈ tree.nodes, entry.2.isPlain = true)
    (hroot : (tree.only besideSnapshots).locate true ⟨"o/."⟩ =
      .ok (.found [.text "o"] (.folder time))) :
    completeSample.loader.KeepsTo tree besideSnapshots := by
  refine Loader.keepsTo_of_unlinked hroot (fun rest link _ hlink => ?_)
    fun rest => rfl
  cases hplain _ (FileTree.mem_nodes_of_node? hlink)

/-- Without any snapshots, and with an old one that differs in everything, the catalogs are the
same. -/
theorem forced_load_forgets_old_snapshot :
    completeSample.loader.store.read (imageDisk []) "a" = .empty ∧
      completeSample.loader.store.read storedDisk "a" = oldSnapshot ∧
      ∃ lib₁ report₁ disk₁ lib₂ report₂ disk₂,
        completeSample.load ⟨false, false, true⟩ (imageDisk []) = .ok (lib₁, report₁, disk₁) ∧
        completeSample.load ⟨true, false, true⟩ storedDisk = .ok (lib₂, report₂, disk₂) ∧
        lib₂.current.albums = lib₁.current.albums ∧ lib₂.current.index = lib₁.current.index := by
  have hfinds : completeSample.loader.FindsAll (imageDisk []) := fun _ _ _ _ _ => rfl
  have hbeside : completeSample.loader.Beside storedDisk :=
    Loader.beside_of_isPlain [.text "i"] (by decide) (by decide) ⟨_, rfl, rfl⟩ rfl
      (by decide) (by decide)
  obtain ⟨hboth, hforgets⟩ := forced_load_forgets completeSample .empty ⟨false, false, true⟩
    ⟨true, false, true⟩ (imageDisk []) storedDisk (by decide) (by decide) besideSnapshots
    (keepsTo_besideSnapshots (by decide) rfl) (keepsTo_besideSnapshots (by decide) rfl) rfl rfl nofun
    (fun _ => hbeside) rfl rfl hfinds
  have hloads : (completeSample.load ⟨false, false, true⟩ (imageDisk [])).toOption.isSome = true := by
    decide +kernel
  refine ⟨by decide +kernel, by decide +kernel, ?_⟩
  cases hload : completeSample.load ⟨false, false, true⟩ (imageDisk []) with
  | error e =>
    rw [hload] at hloads
    cases hloads
  | ok outcome =>
    obtain ⟨lib₁, report₁, disk₁⟩ := outcome
    obtain ⟨⟨lib₂, report₂, disk₂⟩, hsecond⟩ := hboth.2 ⟨_, hload⟩
    exact ⟨lib₁, report₁, disk₁, lib₂, report₂, disk₂, rfl, hsecond,
      hforgets _ _ _ _ _ _ hload hsecond⟩

end Library
end AlbumIndex
