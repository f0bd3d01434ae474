import AlbumIndex.Library
import AlbumIndex.Proofs.Disk.Mirror
import AlbumIndex.Proofs.Load.Coverage

/-!
# Loading once more

A load that keeps its snapshots leaves, for each folder it has listed, the very snapshot that the
folder's album was made from, and none of them is stale as long as the folder does not change.  So a
load of the same folders afterwards finds everything up to date: it looks into no file, writes
nothing, and makes the same albums.

This needs a disk that keeps what is written: below the root of the snapshots there are only files
and folders, also where it comes to lead when folders on the way to it are made.  A link there may
give two folders of the collection one snapshot.  And the collection has to lie beside its snapshots,
or else writing them makes new folders in the collection.  All this is asked of the disk before the
first load.

## Main definitions

* `Instant.IsStorable` — the nearest second of an instant survives being stored.
* `Turn.IsKept` — the snapshot of a turn is kept if it was taken anew.

## Main results

* `Loader.holds_of_mem_turns` — after a load, the snapshots are those of its albums.
* `Loader.load_again_eq` — a load once more, stale for no folder.
* `Library.load_again` — **a second load changes nothing.**
-/

namespace AlbumIndex

open Calendar Disk

/-- The nearest second of the instant survives being stored. -/
def Calendar.Instant.IsStorable (t : Instant) : Prop := ofMillis t.round.toMillis = t.round

instance (t : Instant) : Decidable t.IsStorable := inferInstanceAs (Decidable (_ = _))

namespace Turn

variable {t : Turn} {l : Loader} {opts : LoadOptions} {names others : List String}

/-- The snapshot of the turn fits the form of its file and is kept, if it was taken anew. -/
def IsKept (t : Turn) (l : Loader) (opts : LoadOptions) : Prop :=
  t.isStale l opts = true → (t.snapshot l opts).Fits ∧
    (l.store.write t.tree t.rel (t.snapshot l opts)).2 = none

instance : Decidable (t.IsKept l opts) := inferInstanceAs (Decidable (_ → _ ∧ _))

theorem keeps_treeAfter (t : Turn) (l : Loader) (opts : LoadOptions) :
    ∃ changed, FileTree.Keeps changed t.tree (t.treeAfter l opts) := by
  unfold treeAfter treeWith
  split
  · exact l.store.keeps_write t.tree t.rel _
  · exact ⟨[], .refl t.tree⟩

/-- A stale snapshot that was kept has been written. -/
theorem write_eq (hupdate : opts.updateDisk = true) (hkept : t.IsKept l opts)
    (hstale : t.isStale l opts = true) :
    l.store.write t.tree t.rel (t.snapshot l opts) = (t.treeAfter l opts, none) := by
  rw [treeAfter, treeWith, hstale, hupdate, ← (hkept hstale).2]
  rfl

/-- A snapshot that is not stale has a stamp, so it was read from a file. -/
theorem holds_found_of_fresh (hfresh : t.isStale l opts = false) :
    l.store.Holds t.tree t.rel (t.found l) := by
  unfold isStale Snapshot.isStale at hfresh
  cases hstamp : (t.found l).stamp with
  | none => simp [hstamp] at hfresh
  | some millis => exact SnapshotStore.holds_of_stamp hstamp

theorem snapshot_of_fresh (hfresh : t.isStale l opts = false) : t.snapshot l opts = t.found l := by
  rw [snapshot, refreshed_of_fresh hfresh]

/-- After its turn, the snapshot of a folder is on the disk. -/
theorem holds_treeAfter (hupdate : opts.updateDisk = true)
    (hplain : l.store.Plain (t.treeAfter l opts)) (hnames : ∀ n ∈ names, IsName n)
    (hrel : t.rel = relOf names) (hkept : t.IsKept l opts) :
    l.store.Holds (t.treeAfter l opts) t.rel (t.snapshot l opts) := by
  cases hstale : t.isStale l opts with
  | true =>
    have hwrite := write_eq hupdate hkept hstale
    rw [hrel] at hwrite ⊢
    exact SnapshotStore.holds_of_write hplain hnames (hkept hstale).1 hwrite
  | false =>
    rw [treeAfter_of_fresh hstale, snapshot_of_fresh hstale]
    exact holds_found_of_fresh hstale

/-- A turn leaves the snapshots of all other folders. -/
theorem holds_treeAfter_of_ne (hupdate : opts.updateDisk = true)
    (hplain : l.store.Plain (t.treeAfter l opts)) (hnames : ∀ n ∈ names, IsName n)
    (hrel : t.rel = relOf names) (hothers : ∀ n ∈ others, IsName n) (hne : t.rel ≠ relOf others)
    (hkept : t.IsKept l opts) {snapshot : Snapshot}
    (hholds : l.store.Holds t.tree (relOf others) snapshot) :
    l.store.Holds (t.treeAfter l opts) (relOf others) snapshot := by
  cases hstale : t.isStale l opts with
  | true =>
    have hwrite := write_eq hupdate hkept hstale
    rw [hrel] at hwrite hne
    exact SnapshotStore.Holds.write hplain hnames hothers (fun h => hne (by rw [h])) hwrite hholds
  | false =>
    rw [treeAfter_of_fresh hstale]
    exact hholds

/-- The same turn with another disk. -/
def on (t : Turn) (tree : FileTree) : Turn := { t with tree }

/-- **A turn once more**: where the disk holds the snapshot that an earlier turn of the folder has
left, it is not stale. -/
theorem isStale_on {opts' : LoadOptions} (hforce : opts'.force = false)
    (hstorable : t.modified.IsStorable) {tree : FileTree}
    (hholds : l.store.Holds tree t.rel (t.snapshot l opts)) :
    (t.on tree).isStale l opts' = false ∧ (t.on tree).found l = t.snapshot l opts := by
  have hfound : (t.on tree).found l = t.snapshot l opts := hholds.read_eq
  refine ⟨?_, hfound⟩
  rw [isStale, hfound, hforce, Bool.or_false]
  cases hstale : t.isStale l opts with
  | true =>
    have hstored : Instant.ofMillis t.modified.round.toMillis = t.modified.round := hstorable
    rw [Snapshot.isStale, stamp_snapshot hstale]
    simp only [on, hstored, decide_eq_false_iff_not]
    exact Instant.lt_irrefl _
  | false =>
    rw [snapshot_of_fresh hstale]
    exact (Bool.or_eq_false_iff.1 hstale).1

end Turn

namespace Loader

variable {l : Loader} {opts opts' : LoadOptions} {tree tree' : FileTree} {stops : List Stop}

/-! ### Snapshots after a load -/

theorem keeps_treeAfter (l : Loader) (opts : LoadOptions) (tree : FileTree) (stops : List Stop) :
    ∃ changed, FileTree.Keeps changed tree (l.treeAfter opts tree stops) := by
  induction stops generalizing tree with
  | nil => exact ⟨[], .refl tree⟩
  | cons s stops ih =>
    obtain ⟨rel, modified, entries⟩ := s
    cases entries with
    | none => exact ih tree
    | some entries =>
      obtain ⟨_, hturn⟩ := Turn.keeps_treeAfter ⟨rel, modified, entries, tree⟩ l opts
      obtain ⟨_, hrest⟩ := ih (Turn.treeAfter ⟨rel, modified, entries, tree⟩ l opts)
      exact ⟨_, hturn.trans hrest⟩

theorem work_treeAfter (l : Loader) (opts : LoadOptions) (htree : tree.WellFormed) :
    l.store.Work SnapshotStore.IsRel tree (l.treeAfter opts tree (l.stopsOn opts tree)) := by
  refine (work_foldl_afterStop l.isWork_keep tree _).mono fun rel hrel => ?_
  obtain ⟨-, s, hs, rfl⟩ := hrel
  exact names_of_mem_stopsOn htree hs

/-- A load leaves the snapshots of the folders it does not come to. -/
theorem holds_treeAfter_of_not_mem (hupdate : opts.updateDisk = true)
    (hplain : l.store.Plain (l.treeAfter opts tree stops))
    (hstops : ∀ s ∈ stops, ∃ names, (∀ n ∈ names, IsName n) ∧ s.rel = relOf names)
    (hkept : ∀ t ∈ l.turns opts tree stops, t.IsKept l opts) {others : List String}
    (hothers : ∀ n ∈ others, IsName n) (hne : ∀ s ∈ stops, s.rel ≠ relOf others)
    {snapshot : Snapshot} (hholds : l.store.Holds tree (relOf others) snapshot) :
    l.store.Holds (l.treeAfter opts tree stops) (relOf others) snapshot := by
  induction stops generalizing tree with
  | nil => exact hholds
  | cons s stops ih =>
    obtain ⟨rel, modified, entries⟩ := s
    obtain ⟨⟨names, hnames, hrel⟩, hrest⟩ := List.forall_mem_cons.1 hstops
    obtain ⟨hneFirst, hneRest⟩ := List.forall_mem_cons.1 hne
    cases entries with
    | none => exact ih hplain hrest hkept hneRest hholds
    | some entries =>
      obtain ⟨hkeptFirst, hkeptRest⟩ := List.forall_mem_cons.1 hkept
      obtain ⟨_, hkeeps⟩ := keeps_treeAfter l opts
        (Turn.treeAfter ⟨rel, modified, entries, tree⟩ l opts) stops
      refine ih hplain hrest hkeptRest hneRest ?_
      exact Turn.holds_treeAfter_of_ne hupdate (hplain.of_keeps hkeeps) hnames hrel hothers hneFirst
        hkeptFirst hholds

/-- **After a load, the snapshots on the disk are those of its albums.** -/
theorem holds_of_mem_turns (hupdate : opts.updateDisk = true)
    (hplain : l.store.Plain (l.treeAfter opts tree stops))
    (hstops : ∀ s ∈ stops, ∃ names, (∀ n ∈ names, IsName n) ∧ s.rel = relOf names)
    (hdistinct : stops.Pairwise fun s s' => s.rel ≠ s'.rel)
    (hkept : ∀ t ∈ l.turns opts tree stops, t.IsKept l opts) {t : Turn}
    (ht : t ∈ l.turns opts tree stops) :
    l.store.Holds (l.treeAfter opts tree stops) t.rel (t.snapshot l opts) := by
  induction stops generalizing tree with
  | nil => cases ht
  | cons s stops ih =>
    obtain ⟨rel, modified, entries⟩ := s
    obtain ⟨⟨names, hnames, hrel⟩, hrest⟩ := List.forall_mem_cons.1 hstops
    obtain ⟨hdistinctFirst, hdistinctRest⟩ := List.pairwise_cons.1 hdistinct
    cases entries with
    | none => exact ih hplain hrest hdistinctRest hkept ht
    | some entries =>
      obtain ⟨hkeptFirst, hkeptRest⟩ := List.forall_mem_cons.1 hkept
      rcases List.mem_cons.1 ht with rfl | ht
      · obtain ⟨_, hkeeps⟩ := keeps_treeAfter l opts
          (Turn.treeAfter ⟨rel, modified, entries, tree⟩ l opts) stops
        have hnow := Turn.holds_treeAfter hupdate (hplain.of_keeps hkeeps) hnames hrel hkeptFirst
        -- the turns that follow are those of other folders
        have hne : ∀ s ∈ stops, s.rel ≠ relOf names := fun s hs hsame =>
          hdistinctFirst s hs (hrel.trans hsame.symm)
        obtain rfl : rel = relOf names := hrel
        have hafter : l.store.Plain (l.treeAfter opts
            (Turn.treeAfter ⟨relOf names, modified, entries, tree⟩ l opts) stops) := hplain
        exact holds_treeAfter_of_not_mem hupdate hafter hrest hkeptRest hnames hne hnow
      · exact ih hplain hrest hdistinctRest hkeptRest ht

/-! ### The same turns once more -/

/-- Where no folder is stale, the disk stays as it is. -/
theorem turns_of_fresh
    (hfresh : ∀ t ∈ l.turns opts tree stops, (t.on tree').isStale l opts' = false) :
    l.turns opts' tree' stops = (l.turns opts tree stops).map (fun t => t.on tree') ∧
      l.treeAfter opts' tree' stops = tree' := by
  induction stops generalizing tree with
  | nil => exact ⟨rfl, rfl⟩
  | cons s stops ih =>
    obtain ⟨rel, modified, entries⟩ := s
    cases entries with
    | none => exact ih hfresh
    | some entries =>
      obtain ⟨hfirst, hfresh⟩ := List.forall_mem_cons.1 hfresh
      obtain ⟨hturns, htree⟩ := ih hfresh
      have hsame : Turn.treeAfter ⟨rel, modified, entries, tree'⟩ l opts' = tree' :=
        Turn.treeAfter_of_fresh hfirst
      have hrest := congrArg (fun t => l.treeAfter opts' t stops) hsame
      simp only [turns, hsame]
      exact ⟨by rw [hturns, List.map_cons]; rfl, hrest.trans htree⟩

/-- The turns of a load once more are the same turns, none of them stale. -/
theorem turns_again (htree : tree.WellFormed) (hupdate : opts.updateDisk = true)
    (hforce : opts'.force = false) (hkept : ∀ t ∈ l.turnsOf opts tree, t.IsKept l opts)
    (hplain : l.store.Plain (l.treeAfter opts tree (l.stopsOn opts tree)))
    (hstorable : ∀ s ∈ l.stopsOn opts tree, s.modified.IsStorable) {t : Turn}
    (ht : t ∈ l.turnsOf opts tree) :
    (t.on (l.treeAfter opts tree (l.stopsOn opts tree))).isStale l opts' = false ∧
      (t.on (l.treeAfter opts tree (l.stopsOn opts tree))).found l = t.snapshot l opts := by
  have hturn : t ∈ l.turns opts tree (l.stopsOn opts tree) := ht
  have hholds := holds_of_mem_turns hupdate hplain (fun s hs => names_of_mem_stopsOn htree hs)
    (stopsOn_nodup opts htree) hkept hturn
  have htime := hstorable _ (mem_stops_of_mem_turns ht)
  exact Turn.isStale_on hforce htime hholds

/-- **A load once more** of the same collection, with the snapshots that the first one has kept. -/
theorem load_again_eq (htree : tree.WellFormed) {loaded : Loaded}
    (hload : l.load opts tree = .ok loaded) (hupdate : opts.updateDisk = true)
    (hforce : opts'.force = false) (hkept : ∀ t ∈ l.turnsOf opts tree, t.IsKept l opts)
    (hplain : l.store.PlainAhead tree) (hbeside : l.Beside tree)
    (hstorable : ∀ s ∈ l.stops tree, s.modified.IsStorable) :
    l.load opts' loaded.tree =
      .ok { loaded with stats := { loaded.stats with rebuilt := 0 }, calls := [] } := by
  obtain ⟨root, hroot⟩ := exists_stat_of_load hload
  obtain ⟨htime, albums, halbums, rfl⟩ := (load_eq_ok_iff htree hroot).1 hload
  have hafter : (l.progressAfter opts (begin tree root.modified) (l.stopsOn opts tree)
      albums).loaded.tree = l.treeAfter opts tree (l.stopsOn opts tree) := rfl
  rw [hafter]
  have hwork := work_treeAfter l opts htree
  have hwell := hwork.wellFormed htree
  have hplain' := hwork.plain (fun _ h => h) hplain
  -- the second load makes the same stops as the first one
  have hstops : l.stopsOn opts tree = l.stops tree := stopsOn_eq_stops htree fun _ => hbeside
  have hsame : l.stopsOn opts' (l.treeAfter opts tree (l.stopsOn opts tree)) =
      l.stopsOn opts tree := by
    rw [stopsOn_eq_stops hwell fun _ => hbeside.of_work hwork, hbeside.stops_eq htree hwork, hstops]
  have hroot' := (hbeside.looksSame htree hwork).stat_originals hroot
  have hagain := fun t ht =>
    turns_again (t := t) htree hupdate hforce hkept hplain' (hstops ▸ hstorable) ht
  generalize l.treeAfter opts tree (l.stopsOn opts tree) = final at *
  have hfresh : ∀ t ∈ l.turns opts tree (l.stopsOn opts tree), (t.on final).isStale l opts' = false :=
    fun t ht => (hagain t ht).1
  obtain ⟨hturns, hfinal⟩ := turns_of_fresh hfresh
  refine (load_eq_ok_iff hwell hroot').2 ⟨htime, albums, ?_, ?_⟩
  · rw [← halbums, turnsOf, hsame, hturns, List.map_map]
    refine List.map_congr_left fun t ht => ?_
    obtain ⟨hnow, hfound⟩ := hagain t ht
    simp only [Function.comp_apply, Turn.album, Turn.snapshot_of_fresh hnow, hfound]
    rfl
  · have hrebuilt : (l.turns opts' final (l.stopsOn opts tree)).countP (fun t => t.isStale l opts') =
        0 := by
      rw [hturns, List.countP_eq_zero]
      intro t ht
      obtain ⟨before, hbefore, rfl⟩ := List.mem_map.1 ht
      simp [hfresh before hbefore]
    have hcalls : (l.turns opts' final (l.stopsOn opts tree)).flatMap (fun t => t.calls l opts') =
        [] := by
      rw [hturns, List.flatMap_eq_nil_iff]
      intro t ht
      obtain ⟨before, hbefore, rfl⟩ := List.mem_map.1 ht
      rw [Turn.calls, Turn.refreshed_of_fresh (hfresh before hbefore)]
    simp only [Progress.loaded, progressAfter, begin, hsame, hrebuilt, hcalls, hfinal, List.nil_append,
      Nat.zero_add]

end Loader

/-! ### Libraries -/

namespace Library

/-- What is told about a load. -/
def reportOf (lib : Library) (opts : LoadOptions) (loaded : Loaded) : LoadReport :=
  let c := lib.catalogOf loaded
  ⟨loaded.stats, loaded.calls,
    if opts.minify then lib.minifier.map fun minify => (c, minify c) else none⟩

/-- A library is loaded if its collection is; the catalog of the albums is put in use. -/
theorem load_eq (lib : Library) (opts : LoadOptions) (tree : FileTree) :
    lib.load opts tree = (lib.loader.load opts tree).map fun loaded =>
      (lib.swap (lib.catalogOf loaded), lib.reportOf opts loaded, loaded.tree) := by
  unfold load
  cases lib.loader.load opts tree <;> rfl

/-- **A second load changes nothing.**  The collection lies beside its snapshots, and there are only
files and folders wherever their root leads or comes to lead.  After a load that has kept all its
snapshots, a load that takes nothing anew by force looks into no file and writes nothing.  The
library has the same catalog again, and the report says the same but that no folder was stale. -/
theorem load_again (lib : Library) (opts opts' : LoadOptions) (tree : FileTree)
    (htree : tree.WellFormed) {lib' : Library} {report : LoadReport} {tree' : FileTree}
    (hload : lib.load opts tree = .ok (lib', report, tree'))
    (hupdate : opts.updateDisk = true) (hforce : opts'.force = false)
    (hkept : ∀ t ∈ lib.loader.turnsOf opts tree, t.IsKept lib.loader opts)
    (hplain : lib.loader.store.PlainAhead tree) (hbeside : lib.loader.Beside tree)
    (hstorable : ∀ s ∈ lib.loader.stops tree, s.modified.IsStorable) :
    ∃ again, lib'.load opts' tree' = .ok (lib', again, tree') ∧ again.calls = [] ∧
      again.stats = { report.stats with rebuilt := 0 } := by
  unfold load at hload
  cases hfirst : lib.loader.load opts tree with
  | error e => rw [hfirst] at hload; cases hload
  | ok loaded =>
    rw [hfirst] at hload
    cases hload
    have hagain : (lib.swap (lib.catalogOf loaded)).loader.load opts' loaded.tree =
        .ok { loaded with stats := { loaded.stats with rebuilt := 0 }, calls := [] } :=
      Loader.load_again_eq htree hfirst hupdate hforce hkept hplain hbeside hstorable
    unfold load
    rw [hagain]
    exact ⟨_, rfl, rfl, rfl⟩

/-- A library in the current folder, with its collection in `o` and its snapshots in `i`. -/
def sample : Library :=
  .new ⟨⟨""⟩, ⟨⟨"o"⟩, ⟨"i"⟩, ⟨"s"⟩⟩, .default, .default⟩ .fileTime none

/-- A disk with one image in its collection, in the folder `a`, and with more nodes. -/
def imageDisk (more : List (Place × FileNode)) : FileTree :=
  Loader.sampleDisk "a" (([.text "o", .text "a", .text "x.jpg"], .file [] ⟨5, 0⟩) :: more)

/-- The collection lies beside its snapshots, which are not there yet. -/
theorem beside_imageDisk : sample.loader.Beside (imageDisk []) :=
  Loader.beside_of_isPlain [.text "i"] (by decide) (by decide) ⟨_, rfl, rfl⟩ rfl (by decide)
    (by decide)

/-- Of two folders with one image, the second load takes neither anew. -/
theorem load_again_of_one_image :
    ∃ lib' report again tree', sample.load ⟨true, false, true⟩ (imageDisk []) =
        .ok (lib', report, tree') ∧ report.stats = ⟨2, 1, 2, 0⟩ ∧ report.calls.length = 1 ∧
      lib'.load ⟨true, false, false⟩ tree' = .ok (lib', again, tree') ∧ again.calls = [] ∧
      again.stats = ⟨2, 1, 0, 0⟩ := by
  have hfirst : ((sample.load ⟨true, false, true⟩ (imageDisk [])).toOption.map fun r =>
      (r.2.1.stats, r.2.1.calls.length)) = some (⟨2, 1, 2, 0⟩, 1) := by decide +kernel
  cases hload : sample.load ⟨true, false, true⟩ (imageDisk []) with
  | error e => rw [hload] at hfirst; cases hfirst
  | ok outcome =>
    obtain ⟨lib', report, tree'⟩ := outcome
    rw [hload] at hfirst
    simp only [Except.toOption, Option.map_some, Option.some.injEq, Prod.mk.injEq] at hfirst
    obtain ⟨hstats, hcalls⟩ := hfirst
    have hmissing : (imageDisk []).locate true sample.loader.store.root =
        .ok (.missing [.text "i"]) := rfl
    have hplain : sample.loader.store.PlainAhead (imageDisk []) :=
      SnapshotStore.plainAhead_of_steady (by decide)
        (SnapshotStore.plain_of_forall_isPlain _ (by decide)) (SnapshotStore.steady_of_missing hmissing)
    obtain ⟨again, hagain, hnoCalls, hstatsAgain⟩ := load_again sample ⟨true, false, true⟩
      ⟨true, false, false⟩ (imageDisk []) (by decide) hload rfl rfl (by decide +kernel) hplain
      beside_imageDisk (by decide +kernel)
    rw [hstats] at hstatsAgain
    exact ⟨lib', report, again, tree', rfl, hstats, hcalls, hagain, hnoCalls, hstatsAgain⟩

/-- The folder for the snapshots of `a` is another name for the folder of all snapshots. -/
def linkedDisk : FileTree :=
  imageDisk [([.text "i"], .folder .epoch), ([.text "i", .text "a"], .link ⟨"."⟩)]

/-- What two loads of a disk in a row count, the first of which keeps its snapshots. -/
def countTwice (tree : FileTree) : Option (LoadStats × LoadStats) :=
  match sample.load ⟨true, false, false⟩ tree with
  | .error _ => none
  | .ok (lib', report, tree') =>
    match lib'.load ⟨true, false, false⟩ tree' with
    | .error _ => none
    | .ok (_, again, _) => some (report.stats, again.stats)

/-- A link below the root of the snapshots can spoil the second load, although everything is kept and
the paths of the collection do not depend on what lies there.  Where two folders of the collection
get one snapshot, the image of one is found in the other as well. -/
theorem load_again_through_a_link :
    linkedDisk.WellFormed ∧ linkedDisk.Closed ∧
      sample.loader.KeepsOff linkedDisk ([Name.text "i"] <+: ·) ∧
      (∀ t ∈ sample.loader.turnsOf ⟨true, false, false⟩ linkedDisk,
        t.IsKept sample.loader ⟨true, false, false⟩) ∧
      (∀ s ∈ sample.loader.stops linkedDisk, s.modified.IsStorable) ∧
      countTwice linkedDisk = some (⟨2, 1, 2, 0⟩, ⟨2, 2, 0, 0⟩) := by
  have hfolder : (linkedDisk.only fun q => !([.text "i"] : Place).isPrefixOf q).locate true
      (sample.loader.originals.join ".") = .ok (.found [.text "o"] (.folder ⟨10, 0⟩)) := rfl
  have hunlinked : linkedDisk.UnlinkedBelow [.text "o"] := by
    intro rest link _ hlink
    have hplain : ∀ p ∈ linkedDisk.nodes, [Name.text "o"] <+: p.1 → p.2.isPlain = true := by decide
    cases hplain _ (FileTree.mem_nodes_of_node? hlink) (List.prefix_append _ rest)
  exact ⟨by decide, by decide, Loader.keepsOff_of_unlinked hfolder hunlinked (by decide) (by decide),
    by decide +kernel, by decide +kernel, by decide +kernel⟩

end Library
end AlbumIndex
