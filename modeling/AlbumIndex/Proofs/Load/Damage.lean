import AlbumIndex.Proofs.Disk.Damage
import AlbumIndex.Proofs.Load.Again
import AlbumIndex.Proofs.Load.Persistence
import AlbumIndex.Proofs.Load.Sight

/-!
# A damaged snapshot is as good as none

The file of a snapshot may be left with bytes that are no snapshot, as those of a write that was cut
short.  The next load then goes as if somebody had deleted the file: the folder is taken anew, and
what is kept puts the file right.  Both loads are followed side by side, on two disks that are twins
until the file is written again.

What is deleted is the file that the path of the snapshot leads to.  Removing the path is the same,
unless it is a link; then only the link is gone, while the damage was done to the file behind it.
And where what is kept cannot be written, a link may let one folder come upon what is kept for
another.

## Main definitions

* `Loader.Apart` — no path of the collection leads to a place.
* `Loader.WritesAll` — every snapshot that a load takes anew is written.

## Main results

* `Loader.stops_without` — a walk makes the same stops once the damaged file is gone.
* `Loader.load_of_twins` — the loads of two disks that differ by a damaged file.
* `Loader.node?_treeAfter_of_twins` — the disks are the same once the snapshot is written again.
* `Loader.load_damaged` — **a damaged snapshot is as good as none.**
* `Loader.damaged_seen_through_links` — links can tell the two apart.
-/

namespace AlbumIndex

open Calendar Disk

/-! ### The collection of both disks -/

namespace Loader

variable {l : Loader} {opts : LoadOptions} {tree tree' : FileTree} {place : Place}
  {names : List String}

/-- No path of the collection leads to the place. -/
def Apart (l : Loader) (tree : FileTree) (place : Place) : Prop :=
  ∀ rel, SnapshotStore.IsRel rel → ∀ node,
    tree.locate true (folderPath l.originals rel) ≠ .ok (.found place node)

/-- Below a folder without links that the collection lies in, its paths lead to nothing outside. -/
theorem apart_of_unlinked {folder : Place} {time : Instant}
    (hroot : tree.locate true (l.originals.join ".") = .ok (.found folder (.folder time)))
    (hunlinked : tree.UnlinkedBelow folder) (hplace : ¬ folder <+: place) : l.Apart tree place := by
  rintro rel ⟨names, hnames, rfl⟩ node hfound
  by_cases hnil : names = []
  · subst hnil
    rw [relOf_nil, folderPath, if_pos rfl] at hfound
    have hne := (FileTree.locate_eq_ok_iff.1 hfound).2.1
    rw [(FileTree.locate_of_locate_dot true hne hroot).eq] at hfound
    cases hfound
    exact hplace (List.prefix_refl _)
  · rw [folderPath, if_neg (mt (relOf_eq_empty_iff hnames).1 hnil)] at hfound
    obtain ⟨folder', _, hroot', hbelow⟩ := FileTree.place_of_locate_join hnames hnil hfound
    rw [hroot] at hroot'
    cases hroot'
    obtain ⟨rfl, -⟩ := hbelow hunlinked
    exact hplace (List.prefix_append _ _)

/-- The paths of the collection do without the damaged file. -/
theorem Apart.keepsTo (hapart : l.Apart tree place)
    (h : FileTree.Twins place tree (tree.without place)) :
    l.KeepsTo tree fun q => decide (q ≠ place) := by
  intro names hnames q node hfound
  have hagree := h.locate true (folderPath l.originals (relOf names))
  rw [hfound] at hagree
  change (tree.without place).locate true (folderPath l.originals (relOf names)) =
    .ok (.found q node)
  generalize (tree.without place).locate true (folderPath l.originals (relOf names)) = found'
    at hagree
  cases hagree with
  | same => rfl
  | here => exact absurd hfound (hapart _ ⟨names, hnames, rfl⟩ _)

/-- **A walk over the collection makes the same stops** once a damaged file apart from it is taken
away. -/
theorem stops_without (htree : tree.WellFormed)
    (h : FileTree.Twins place tree (tree.without place)) (hapart : l.Apart tree place) :
    l.stops (tree.without place) = l.stops tree :=
  stops_only htree (hapart.keepsTo h)

end Loader

/-! ### Turns on both disks -/

namespace Turn

variable {t : Turn} {l : Loader} {opts : LoadOptions} {tree' : FileTree} {place : Place}

/-- The snapshot of the turn is written if it was taken anew. -/
def IsWritten (t : Turn) (l : Loader) (opts : LoadOptions) : Prop :=
  t.isStale l opts = true → (l.store.write t.tree t.rel (t.snapshot l opts)).2 = none

instance : Decidable (t.IsWritten l opts) := inferInstanceAs (Decidable (_ → _))

/-- A turn on the twin: the same snapshot is found, and the same becomes of it. -/
theorem on_twin (l : Loader) (opts : LoadOptions) (h : FileTree.Twins place t.tree tree') :
    (t.on tree').isStale l opts = t.isStale l opts ∧
      (t.on tree').refreshed l opts = t.refreshed l opts := by
  have hfound : (t.on tree').found l = t.found l := SnapshotStore.read_of_twins h t.rel
  unfold isStale refreshed
  rw [hfound]
  exact ⟨rfl, rfl⟩

/-- **Two disks that differ by a damaged file are twins after a turn**, if what is kept gets
written. -/
theorem twins_treeAfter (h : FileTree.Twins place t.tree tree')
    (hwritten : opts.updateDisk = true → t.IsWritten l opts) :
    FileTree.Twins place (t.treeAfter l opts) ((t.on tree').treeAfter l opts) := by
  obtain ⟨hstale, hrefreshed⟩ := on_twin l opts h
  have hsnapshot : (t.on tree').snapshot l opts = t.snapshot l opts :=
    congrArg Refreshed.snapshot hrefreshed
  unfold treeAfter treeWith
  rw [hstale, hsnapshot]
  split
  · next hkeeps =>
    obtain ⟨hold, hupdate⟩ := Bool.and_eq_true_iff.1 hkeeps
    exact (SnapshotStore.write_of_twins h (hwritten hupdate hold)).2
  · exact h

/-- What is written on the disk with the damaged file is written on its twin. -/
theorem IsWritten.on_twin (hwritten : t.IsWritten l opts) (h : FileTree.Twins place t.tree tree') :
    (t.on tree').IsWritten l opts := by
  obtain ⟨hstale, hrefreshed⟩ := Turn.on_twin l opts h
  intro hnow
  rw [hstale] at hnow
  rw [snapshot, hrefreshed]
  exact (SnapshotStore.write_of_twins h (hwritten hnow)).1

/-- After a turn whose snapshot is kept, there is a file for it. -/
theorem found_treeAfter (hupdate : opts.updateDisk = true) (hwritten : t.IsWritten l opts) :
    ∃ q node, (t.treeAfter l opts).locate true (l.store.binaryFile t.rel) = .ok (.found q node) := by
  cases hstale : t.isStale l opts with
  | true =>
    rw [treeAfter, treeWith, hstale, hupdate]
    exact SnapshotStore.found_of_write (hwritten hstale)
  | false =>
    rw [treeAfter_of_fresh hstale]
    refine Classical.byContradiction fun hnone => ?_
    -- a snapshot that is missing has no stamp
    have hempty : t.found l = .empty := SnapshotStore.read_of_not_found fun q node hlocate =>
      hnone ⟨q, node, hlocate⟩
    rw [isStale, hempty] at hstale
    cases hstale

end Turn

namespace Loader

variable {l : Loader} {opts : LoadOptions} {tree tree' : FileTree} {place : Place}
  {stops : List Stop}

/-- Every snapshot that a load takes anew is written. -/
def WritesAll (l : Loader) (opts : LoadOptions) (tree : FileTree) : Prop :=
  ∀ t ∈ l.turnsOf opts tree, t.IsWritten l opts

instance : Decidable (l.WritesAll opts tree) := inferInstanceAs (Decidable (∀ _ ∈ _, _))

/-- A visit to a listed folder gives the same on both disks, but for the disks. -/
theorem visit_of_twins {p : Progress} (h : FileTree.Twins place p.tree tree') (rel : String)
    (modified : Instant) (entries : List Entry) :
    l.visit opts { p with tree := tree' } ⟨rel, modified, some entries⟩ =
      (l.visit opts p ⟨rel, modified, some entries⟩).map fun q =>
        { q with tree := Turn.treeAfter ⟨rel, modified, entries, tree'⟩ l opts } := by
  obtain ⟨hstale, hrefreshed⟩ := Turn.on_twin l opts (t := ⟨rel, modified, entries, p.tree⟩) h
  have halbum : (Turn.on ⟨rel, modified, entries, p.tree⟩ tree').album l opts =
      Turn.album ⟨rel, modified, entries, p.tree⟩ l opts := by
    rw [Turn.album, Turn.snapshot, hrefreshed]
    rfl
  have hprogress : ∀ album, l.progressWith l.keep opts { p with tree := tree' }
      (Turn.on ⟨rel, modified, entries, p.tree⟩ tree') album =
        { l.progressWith l.keep opts p ⟨rel, modified, entries, p.tree⟩ album with
          tree := Turn.treeAfter ⟨rel, modified, entries, tree'⟩ l opts } := by
    intro album
    rw [progressWith, hstale, Turn.calls, hrefreshed]
    rfl
  have hvisit : l.visit opts { p with tree := tree' } ⟨rel, modified, some entries⟩ =
      (Turn.album ⟨rel, modified, entries, p.tree⟩ l opts).map
        (l.progressWith l.keep opts { p with tree := tree' }
          (Turn.on ⟨rel, modified, entries, p.tree⟩ tree')) := by
    rw [visit_of_listed, ← halbum]
    rfl
  rw [hvisit, visit_of_listed]
  cases Turn.album ⟨rel, modified, entries, p.tree⟩ l opts with
  | error e => rfl
  | ok album => exact congrArg Except.ok (hprogress album)

/-- **A row of visits on both disks** gives the same, and leaves twins. -/
theorem foldlM_visit_of_twins {p : Progress} (h : FileTree.Twins place p.tree tree')
    (hwritten : opts.updateDisk = true → ∀ t ∈ l.turns opts p.tree stops, t.IsWritten l opts) :
    stops.foldlM (l.visit opts) { p with tree := tree' } =
        (stops.foldlM (l.visit opts) p).map
          (fun q => { q with tree := l.treeAfter opts tree' stops }) ∧
      FileTree.Twins place (l.treeAfter opts p.tree stops) (l.treeAfter opts tree' stops) := by
  induction stops generalizing p tree' with
  | nil => exact ⟨rfl, h⟩
  | cons s stops ih =>
    obtain ⟨rel, modified, entries⟩ := s
    rw [List.foldlM_cons, List.foldlM_cons]
    cases entries with
    | none =>
      rw [visit_of_unlistable, visit_of_unlistable]
      exact ih (p := p.fail) h hwritten
    | some entries =>
      obtain ⟨hfirst, hrest⟩ := forall_and.1 fun hupdate =>
        List.forall_mem_cons.1 (hwritten hupdate)
      have htwins := Turn.twins_treeAfter (t := ⟨rel, modified, entries, p.tree⟩) h hfirst
      refine ⟨?_, (ih (p := { p with tree := _ }) htwins hrest).2⟩
      rw [visit_of_twins h, visit_of_listed]
      cases Turn.album ⟨rel, modified, entries, p.tree⟩ l opts with
      | error e => rfl
      | ok album =>
        exact (ih (p := l.progressWith l.keep opts p ⟨rel, modified, entries, p.tree⟩ album) htwins hrest).1

/-- **The loads of both disks** give the same and leave twins, if both make the stops of a walk over
the disk as it is and what is kept gets written. -/
theorem load_of_twins (opts : LoadOptions) (htree : tree.WellFormed) (htree' : tree'.WellFormed)
    (h : FileTree.Twins place tree tree') (hlive : l.stopsOn opts tree = l.stops tree)
    (hlive' : l.stopsOn opts tree' = l.stops tree') (hsame : l.stops tree' = l.stops tree)
    (hstops : l.stops tree ≠ []) (hwritten : opts.updateDisk = true → l.WritesAll opts tree) :
    l.load opts tree' = (l.load opts tree).map
        (fun loaded => { loaded with tree := l.treeAfter opts tree' (l.stops tree) }) ∧
      FileTree.Twins place (l.treeAfter opts tree (l.stops tree))
        (l.treeAfter opts tree' (l.stops tree)) := by
  obtain ⟨root, hroot⟩ := stat_eq_ok_iff.2 hstops
  obtain ⟨root', hroot'⟩ := stat_eq_ok_iff.2 (hsame ▸ hstops)
  -- the root is found on the twin, so it is the same
  obtain rfl : root' = root := by
    obtain ⟨q, hfound⟩ := FileTree.stat_eq_ok_iff.1 hroot
    obtain ⟨q', hfound'⟩ := FileTree.stat_eq_ok_iff.1 hroot'
    have hagree := (hfound' ▸ h.locate true l.originals).found
    rw [hfound] at hagree
    cases hagree
    rfl
  have hwritten' : opts.updateDisk = true →
      ∀ t ∈ l.turns opts tree (l.stops tree), t.IsWritten l opts := fun hupdate => by
    rw [← hlive]
    exact hwritten hupdate
  obtain ⟨hfold, htwins⟩ := foldlM_visit_of_twins (p := begin tree root'.modified) h hwritten'
  refine ⟨?_, htwins⟩
  rw [load_eq l opts htree hroot, load_eq l opts htree' hroot', hlive', hlive, hsame]
  have hbegin : begin tree' root'.modified = { begin tree root'.modified with tree := tree' } := rfl
  rw [hbegin, hfold]
  cases root'.modified.ensureInRange with
  | error e => rfl
  | ok => exact outcome_map _ _

/-- After the turns on the twin, there is a file for each snapshot. -/
theorem found_of_twins (hupdate : opts.updateDisk = true) (h : FileTree.Twins place tree tree')
    (hwritten : ∀ t ∈ l.turns opts tree stops, t.IsWritten l opts) {t : Turn}
    (ht : t ∈ l.turns opts tree stops) :
    ∃ q node, (l.treeAfter opts tree' stops).locate true (l.store.binaryFile t.rel) =
      .ok (.found q node) := by
  induction stops generalizing tree tree' with
  | nil => cases ht
  | cons s stops ih =>
    obtain ⟨rel, modified, entries⟩ := s
    cases entries with
    | none => exact ih h hwritten ht
    | some entries =>
      obtain ⟨hfirst, hrest⟩ := List.forall_mem_cons.1 hwritten
      rcases List.mem_cons.1 ht with rfl | ht
      · obtain ⟨q, node, hfound⟩ := Turn.found_treeAfter hupdate (hfirst.on_twin h)
        obtain ⟨_, hkeeps⟩ := keeps_treeAfter l opts
          (Turn.treeAfter ⟨rel, modified, entries, tree'⟩ l opts) stops
        obtain ⟨node', hfound', -⟩ := hkeeps.locate_found hfound
        exact ⟨q, node', hfound'⟩
      · exact ih (Turn.twins_treeAfter (t := ⟨rel, modified, entries, tree⟩) h fun _ => hfirst)
          hrest ht

/-- **The damaged file is mended on one disk and made on the other**, so both are the same after a
load that comes to its folder. -/
theorem node?_treeAfter_of_twins (hupdate : opts.updateDisk = true)
    (h : FileTree.Twins place tree tree')
    (hwritten : ∀ t ∈ l.turns opts tree stops, t.IsWritten l opts) {t : Turn}
    (ht : t ∈ l.turns opts tree stops) {node : FileNode}
    (hlocate : tree.locate true (l.store.binaryFile t.rel) = .ok (.found place node)) (q : Place) :
    (l.treeAfter opts tree' stops).node? q = (l.treeAfter opts tree stops).node? q := by
  have htwins : FileTree.Twins place (l.treeAfter opts tree stops) (l.treeAfter opts tree' stops) :=
    (foldlM_visit_of_twins (p := begin tree .epoch) h fun _ => hwritten).2
  by_cases hq : q = place
  · subst hq
    obtain ⟨q', node', hfound'⟩ := found_of_twins hupdate h hwritten ht
    have hfound := (hfound' ▸ htwins.locate true (l.store.binaryFile t.rel)).found
    obtain ⟨_, hkeeps⟩ := keeps_treeAfter l opts tree stops
    obtain ⟨_, hkept, -⟩ := hkeeps.locate_found hlocate
    rw [hkept] at hfound
    cases hfound
    rw [FileTree.node?_of_locate hfound', FileTree.node?_of_locate hkept]
  · exact htwins.others q hq

theorem tree_of_load (htree : tree.WellFormed) {loaded : Loaded}
    (hload : l.load opts tree = .ok loaded) :
    loaded.tree = l.treeAfter opts tree (l.stopsOn opts tree) := by
  obtain ⟨root, hroot⟩ := exists_stat_of_load hload
  obtain ⟨-, albums, -, rfl⟩ := (load_eq_ok_iff htree hroot).1 hload
  rfl

/-- The root of a store in which a file is found leads to a folder. -/
theorem root_of_found {rel : String} (hrel : SnapshotStore.IsRel rel) {node : FileNode}
    (hfile : tree.locate true (l.store.binaryFile rel) = .ok (.found place node)) :
    ∃ folder time, tree.locate true (l.store.root.join ".") = .ok (.found folder (.folder time)) := by
  obtain ⟨names, hnames, rfl⟩ := hrel
  rw [SnapshotStore.binaryFile, SnapshotStore.join_folder hnames SnapshotStore.isName_binaryName]
    at hfile
  obtain ⟨folder, time, hroot, -⟩ := FileTree.locate_join
    (forall_isName_concat hnames SnapshotStore.isName_binaryName) (by simp) hfile
  exact ⟨folder, time, hroot⟩

/-- **A load of a disk with a damaged snapshot, and one of the disk without it.** -/
theorem load_without (htree : tree.WellFormed) (hclosed : tree.Closed) {rel : String} {bytes : Bytes}
    {time : Instant}
    (hfile : tree.locate true (l.store.binaryFile rel) = .ok (.found place (.file bytes time)))
    (hdecode : Snapshot.decode? bytes = none) (hapart : l.Apart tree place)
    (hlisted : ∃ s ∈ l.stops tree, s.rel = rel ∧ s.entries.isSome = true)
    (hbeside : opts.updateDisk = true → l.Beside tree ∧ l.Beside (tree.without place))
    (hkept : opts.updateDisk = true → l.WritesAll opts tree ∨ l.store.Unlinked tree) :
    ∃ after, l.load opts (tree.without place) =
        (l.load opts tree).map (fun loaded => { loaded with tree := after }) ∧
      (opts.updateDisk = true → l.WritesAll opts tree →
        ∀ loaded, l.load opts tree = .ok loaded → ∀ q, after.node? q = loaded.tree.node? q) := by
  obtain ⟨s, hs, rfl, hentries⟩ := hlisted
  have hnode := FileTree.node?_of_locate hfile
  have htree' := htree.without place
  have hclosed' : (tree.without place).Closed := hclosed.without fun _ hfolder => by
    rw [hnode] at hfolder
    cases hfolder
  have htwins := FileTree.Twins.of_without hclosed hnode ⟨bytes, time, rfl, hdecode⟩
  have hsame : l.stops (tree.without place) = l.stops tree :=
    stops_without htree htwins hapart
  have hstops : l.stops tree ≠ [] := List.ne_nil_of_mem hs
  have hlive : l.stopsOn opts tree = l.stops tree := stopsOn_eq_stops htree fun hupdate =>
    (hbeside hupdate).1
  have hlive' : l.stopsOn opts (tree.without place) = l.stops (tree.without place) :=
    stopsOn_eq_stops htree' fun hupdate => (hbeside hupdate).2
  by_cases hwritten : opts.updateDisk = true → l.WritesAll opts tree
  · obtain ⟨hload, -⟩ := load_of_twins opts htree htree' htwins hlive hlive' hsame hstops hwritten
    refine ⟨_, hload, fun hupdate hall loaded hloaded q => ?_⟩
    obtain ⟨t, ht, hrel⟩ := exists_turn_of_listed l opts tree (hlive ▸ hs) hentries
    rw [tree_of_load htree hloaded, ← hlive]
    exact node?_treeAfter_of_twins hupdate htwins hall ht (hrel ▸ hfile) q
  · -- then nothing is seen of what is kept, and both loads give what they would without keeping
    obtain ⟨hupdate, hnot⟩ := Classical.not_imp.1 hwritten
    have hunlinked := (hkept hupdate).resolve_left hnot
    obtain ⟨folder, stamp, hroot⟩ := root_of_found (names_of_mem_stops htree hs) hfile
    have hroot' := (hroot ▸ htwins.locate true (l.store.root.join ".")).eq nofun nofun
    obtain ⟨after, hon, -⟩ := exists_loadWith_eq opts l.isWork_keep htree hclosed hunlinked
      (SnapshotStore.steady_of_folder hroot) (hbeside hupdate).1
    obtain ⟨after', hon', -⟩ := exists_loadWith_eq opts l.isWork_keep htree' hclosed'
      (hunlinked.of_twins htwins) (SnapshotStore.steady_of_folder hroot') (hbeside hupdate).2
    obtain ⟨hoff, -⟩ := load_of_twins { opts with updateDisk := false } htree htree' htwins
      (stopsOn_eq_stops htree nofun) (stopsOn_eq_stops htree' nofun) hsame hstops nofun
    have hopts : { opts with updateDisk := true } = opts := by
      rw [← hupdate]
    rw [hopts, ← load] at hon hon'
    refine ⟨after', ?_, fun _ hall => absurd hall hnot⟩
    rw [hon', hoff, hon]
    cases l.load { opts with updateDisk := false } tree <;> rfl

/-- A file that gets other bytes stays apart from the collection. -/
theorem Apart.put_file (hapart : l.Apart tree place) {old bytes : Bytes} {time time' : Instant}
    (hnode : tree.node? place = some (.file old time)) :
    l.Apart (tree.put place (.file bytes time')) place := by
  intro rel hrel node hfound
  have hback : FileTree.Keeps [place] (tree.put place (.file bytes time')) tree := by
    refine ⟨rfl, fun q node hq => ?_⟩
    rw [FileTree.node?_put] at hq
    split at hq
    · next hsame =>
      cases hq
      exact ⟨.file old time, hsame ▸ hnode, trivial, fun hout => absurd (by simp [hsame]) hout⟩
    · exact ⟨node, hq, .refl node, fun _ => rfl⟩
  obtain ⟨node', hbefore, -⟩ := hback.locate_found hfound
  exact hapart rel hrel node' hbefore

/-- **A damaged snapshot is as good as none.**  The path of the snapshot of a folder that the load
lists leads to a file, and no path of the collection leads there.  If the file gets bytes that are
no snapshot, as those of one that was cut short, then the load gives what it would give if the file
had been deleted: the same albums and numbers, the same files looked into, or the same failure.  If
it keeps its snapshots, the collection has to lie beside them, with the file and without.  If what is
kept gets written, both loads also leave the same disk.  If a write fails, there have to be no links
below the root of the snapshots.  To delete the file it is enough to remove its path,
unless that is a link. -/
theorem load_damaged (l : Loader) (opts : LoadOptions) (tree damaged : FileTree)
    (htree : tree.WellFormed) (hclosed : tree.Closed) {rel : String} {place : Place}
    {old bytes : Bytes} {time : Instant}
    (hfile : tree.locate true (l.store.binaryFile rel) = .ok (.found place (.file old time)))
    (hapart : l.Apart tree place)
    (hbytes : Snapshot.decode? bytes = none ∨
      ∃ s : Snapshot, s.Fits ∧ bytes <+: s.encode ∧ bytes ≠ s.encode)
    (hdamaged : tree.write (l.store.binaryFile rel) bytes = .ok damaged)
    (hlisted : ∃ s ∈ l.stops damaged, s.rel = rel ∧ s.entries.isSome = true)
    (hbeside : opts.updateDisk = true → l.Beside tree ∧ l.Beside (tree.without place))
    (hkept : opts.updateDisk = true → l.WritesAll opts damaged ∨ l.store.Unlinked tree) :
    (∃ after, l.load opts (tree.without place) =
        (l.load opts damaged).map (fun loaded => { loaded with tree := after }) ∧
      (opts.updateDisk = true → l.WritesAll opts damaged →
        ∀ loaded, l.load opts damaged = .ok loaded → ∀ q, after.node? q = loaded.tree.node? q)) ∧
      ∀ node, tree.locate false (l.store.binaryFile rel) = .ok (.found place node) →
        tree.remove (l.store.binaryFile rel) = tree.without place := by
  have hnode := FileTree.node?_of_locate hfile
  have hdecode : Snapshot.decode? bytes = none := hbytes.elim id fun ⟨_, hs, hfront, hne⟩ =>
    Snapshot.decode?_eq_none_of_cut hs hfront hne
  have hput : damaged = tree.put place (.file bytes tree.clock) := by
    unfold FileTree.write at hdamaged
    rw [hfile] at hdamaged
    exact (Except.ok.inj hdamaged).symm
  have hkeeps : FileTree.Keeps [place] tree damaged := hput ▸ .put_alike hnode trivial
  have hfile' : damaged.locate true (l.store.binaryFile rel) =
      .ok (.found place (.file bytes tree.clock)) :=
    hkeeps.locate hfile (by rw [hput]; exact FileTree.node?_put_self _ _) nofun
  have hapart' : l.Apart damaged place := hput ▸ hapart.put_file hnode
  -- the damage is work on the snapshot
  have hwork : l.store.Work (· = rel) tree damaged :=
    .more .none rfl (.file (Or.inl rfl) hdamaged)
  have hisRel : SnapshotStore.IsRel rel := by
    obtain ⟨s, hs, hrel, -⟩ := hlisted
    exact hrel ▸ names_of_mem_stops (htree.write hdamaged) hs
  have hbeside' : opts.updateDisk = true → l.Beside damaged ∧ l.Beside (damaged.without place) := by
    intro hupdate
    obtain ⟨hbefore, hwithout⟩ := hbeside hupdate
    refine ⟨hbefore.of_work (hwork.mono fun _ h => h ▸ hisRel), ?_⟩
    rwa [hput, FileTree.without_put]
  have hkept' : opts.updateDisk = true → l.WritesAll opts damaged ∨ l.store.Unlinked damaged := by
    refine fun hupdate => (hkept hupdate).imp_right fun hunlinked => ?_
    obtain ⟨folder, stamp, hroot⟩ := root_of_found hisRel hfile
    exact hwork.unlinked (fun _ h => h ▸ hisRel) hclosed hunlinked
      (SnapshotStore.steady_of_folder hroot)
  have hload := load_without (htree.write hdamaged) (hclosed.write hdamaged) hfile' hdecode hapart'
    hlisted hbeside' hkept'
  rw [hput, FileTree.without_put] at hload
  rw [hput]
  refine ⟨hload, fun node hlocate => ?_⟩
  obtain rfl : node = .file old time :=
    Option.some.inj ((FileTree.node?_of_locate hlocate).symm.trans hnode)
  exact FileTree.remove_eq_without hclosed hlocate

/-- The collection of the sample loader, which has only files and folders in it, leads to nothing
outside. -/
theorem apart_sample {time : Instant}
    (hroot : tree.locate true (sample.originals.join ".") = .ok (.found [.text "o"] (.folder time)))
    (hplain : ∀ p ∈ tree.nodes, [Name.text "o"] <+: p.1 → p.2.isPlain = true)
    (hplace : ¬ [Name.text "o"] <+: place) : sample.Apart tree place :=
  apart_of_unlinked hroot (SnapshotStore.plain_of_locate (s := ⟨sample.originals⟩) hroot hplain
    [.text "o"] time hroot).unlinked hplace

/-- The snapshot of a folder without entries, taken at the given time. -/
def stored (millis : Int64) : Snapshot := { Snapshot.empty with stamp := some millis }

/-- A file with a snapshot that is up to date. -/
def fresh : FileNode := .file (stored 30000).encode .epoch

/-- A collection with the snapshots of its root and of the folder `a` in some nodes. -/
def storedDisk (root a : FileNode) : FileTree :=
  sampleDisk "a" [([.text "i"], .folder .epoch), ([.text "i", .text "index.bin"], root),
    ([.text "i", .text "a"], .folder .epoch), ([.text "i", .text "a", .text "index.bin"], a)]

/-- Where the snapshot of `a` was cut short, its folder is taken anew and the root is not, as if the
file had been removed. -/
theorem load_damaged_cut_short :
    ∃ damaged loaded after,
      (storedDisk fresh fresh).write (sample.store.binaryFile "a") ((stored 30000).encode.take 7) =
        .ok damaged ∧
      sample.load ⟨true, false, false⟩ damaged = .ok loaded ∧ loaded.stats = ⟨2, 0, 1, 0⟩ ∧
      sample.load ⟨true, false, false⟩
          ((storedDisk fresh fresh).remove (sample.store.binaryFile "a")) =
        .ok { loaded with tree := after } ∧
      ∀ q, after.node? q = loaded.tree.node? q := by
  have hfile : (storedDisk fresh fresh).locate true (sample.store.binaryFile "a") =
      .ok (.found [.text "i", .text "a", .text "index.bin"] fresh) := rfl
  have hwrite : (storedDisk fresh fresh).write (sample.store.binaryFile "a")
      ((stored 30000).encode.take 7) =
        .ok (storedDisk fresh (.file ((stored 30000).encode.take 7) .epoch)) := rfl
  have hbeside : sample.Beside (storedDisk fresh fresh) :=
    beside_of_isPlain [.text "i"] (by decide) (by decide) ⟨_, rfl, rfl⟩ rfl (by decide)
      (by decide)
  have hbeside' : sample.Beside ((storedDisk fresh fresh).without
      [.text "i", .text "a", .text "index.bin"]) :=
    beside_of_isPlain [.text "i"] (by decide) (by decide) ⟨_, rfl, rfl⟩ rfl (by decide)
      (by decide)
  obtain ⟨⟨after, hload, hsame⟩, hremove⟩ := load_damaged sample ⟨true, false, false⟩ _ _ (by decide)
    (by decide) hfile (apart_sample rfl (by decide) (by decide))
    (Or.inr ⟨stored 30000, by decide, List.take_prefix _ _, by decide⟩) hwrite (by decide +kernel)
    (fun _ => ⟨hbeside, hbeside'⟩) fun _ => Or.inl (by decide +kernel)
  have hcount : (sample.load ⟨true, false, false⟩
      (storedDisk fresh (.file ((stored 30000).encode.take 7) .epoch))).toOption.map Loaded.stats =
        some ⟨2, 0, 1, 0⟩ := by decide +kernel
  cases hdamaged : sample.load ⟨true, false, false⟩
      (storedDisk fresh (.file ((stored 30000).encode.take 7) .epoch)) with
  | error e => rw [hdamaged] at hcount; cases hcount
  | ok loaded =>
    rw [hdamaged] at hcount hload
    refine ⟨_, loaded, after, hwrite, hdamaged, Option.some.inj hcount, ?_,
      hsame rfl (by decide +kernel) loaded hdamaged⟩
    rw [hremove _ rfl, hload]
    rfl

/-- How many folders two loads take anew: one of the disk on which the file of a listed folder, apart
from the collection, was emptied, and one of the disk on which it was deleted in some way. -/
def CountsDamaged (opts : LoadOptions) (tree : FileTree) (rel : String) (place : Place)
    (deleted : FileTree) (emptied missing : Nat) : Prop :=
  ∃ old time damaged, tree.WellFormed ∧ tree.Closed ∧
    tree.locate true (sample.store.binaryFile rel) = .ok (.found place (.file old time)) ∧
    sample.Apart tree place ∧ tree.write (sample.store.binaryFile rel) [] = .ok damaged ∧
    (∃ s ∈ sample.stops damaged, s.rel = rel ∧ s.entries.isSome = true) ∧
    (sample.load opts damaged).toOption.map (fun loaded => loaded.stats.rebuilt) = some emptied ∧
    (sample.load opts deleted).toOption.map (fun loaded => loaded.stats.rebuilt) = some missing

/-- The snapshots of `b` and `c` are links to what stands in the place of the folder for the snapshot
of `a`. -/
def blockedDisk (a : FileNode) : FileTree :=
  { nodes := [([], .folder .epoch), ([.text "o"], .folder ⟨10, 0⟩),
      ([.text "o", .text "a"], .folder ⟨10, 0⟩), ([.text "o", .text "b"], .folder ⟨10, 0⟩),
      ([.text "o", .text "c"], .folder ⟨10, 0⟩), ([.text "i"], .folder .epoch),
      ([.text "i", .text "a"], a), ([.text "i", .text "b"], .folder .epoch),
      ([.text "i", .text "b", .text "index.bin"], .link ⟨"../a"⟩),
      ([.text "i", .text "c"], .folder .epoch),
      ([.text "i", .text "c", .text "index.bin"], .link ⟨"../a"⟩)]
    current := []
    clock := .epoch }

/-- Links can tell a damaged snapshot from none.  Where the snapshot of `a` is a link to that of the
root, emptying it damages both and removing it only takes the link away.  Where links lead to a file
that stands in the way of another snapshot, emptying it lets one folder's snapshot be kept there and
found for the next; if it is deleted, or one of the links to it is removed, both are taken anew. -/
theorem damaged_seen_through_links :
    Snapshot.decode? [] = none ∧
    CountsDamaged ⟨false, false, false⟩ (storedDisk fresh (.link ⟨"../index.bin"⟩)) "a"
      [.text "i", .text "index.bin"]
      ((storedDisk fresh (.link ⟨"../index.bin"⟩)).remove (sample.store.binaryFile "a")) 2 1 ∧
    CountsDamaged ⟨true, false, false⟩ (blockedDisk (.file (stored 1000).encode .epoch)) "b"
      [.text "i", .text "a"]
      ((blockedDisk (.file (stored 1000).encode .epoch)).remove (sample.store.binaryFile "b"))
      3 4 ∧
    CountsDamaged ⟨true, false, false⟩ (blockedDisk (.file (stored 1000).encode .epoch)) "b"
      [.text "i", .text "a"]
      ((blockedDisk (.file (stored 1000).encode .epoch)).without [.text "i", .text "a"])
      3 4 := by
  have hlinked : sample.Apart (storedDisk fresh (.link ⟨"../index.bin"⟩))
      [.text "i", .text "index.bin"] := apart_sample rfl (by decide) (by decide)
  have hblocked : sample.Apart (blockedDisk (.file (stored 1000).encode .epoch))
      [.text "i", .text "a"] := apart_sample rfl (by decide) (by decide)
  have hemptied : (blockedDisk (.file (stored 1000).encode .epoch)).write
      (sample.store.binaryFile "b") [] = .ok (blockedDisk (.file [] .epoch)) := rfl
  have hlisted : ∃ s ∈ sample.stops (blockedDisk (.file [] .epoch)),
      s.rel = "b" ∧ s.entries.isSome = true := by decide +kernel
  have hcount : (sample.load ⟨true, false, false⟩ (blockedDisk (.file [] .epoch))).toOption.map
      (fun loaded => loaded.stats.rebuilt) = some 3 := by decide +kernel
  refine ⟨by decide, ?_, ?_, ?_⟩
  · exact ⟨_, _, storedDisk (.file [] .epoch) (.link ⟨"../index.bin"⟩), by decide, by decide, rfl,
      hlinked, rfl, by decide +kernel, by decide +kernel, by decide +kernel⟩
  · exact ⟨_, _, _, by decide, by decide, rfl, hblocked, hemptied, hlisted, hcount,
      by decide +kernel⟩
  · exact ⟨_, _, _, by decide, by decide, rfl, hblocked, hemptied, hlisted, hcount,
      by decide +kernel⟩

end Loader
end AlbumIndex
