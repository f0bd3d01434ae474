import AlbumIndex.Proofs.Disk.Confinement
import AlbumIndex.Proofs.Load.Sight
import AlbumIndex.Proofs.Load.Turns

/-!
# Collections beside their snapshots

A load lists each folder when its turn comes, on a disk on which it has kept snapshots before.  If
these lie in the collection, or links lead there from it, then what is kept is listed.  But where the
places that work on snapshots can change are none of those that the paths of the collection depend
on, a load makes the stops that it would make on a disk that stays as it is, and the next load makes
the same ones again.

What is to be known for this is a matter of the disk before the load.  A collection in a folder
without links, beside the root of its snapshots, has no need of more.

## Main definitions

* `Loader.KeepsOff` — the paths of a collection do not depend on what lies at some places.
* `Loader.Beside` — nor does work on snapshots change anything but these places.

## Main results

* `Loader.Beside.looksSame` — **the collection looks the same after any work on its snapshots.**
* `Loader.stopsWith_eq_stops` — **then a load stops where a walk over the disk before it does.**
* `Loader.beside_of_unlinked` — a collection without links beside the root of its snapshots.
-/

namespace AlbumIndex

open Calendar Disk

namespace Loader

variable {l : Loader} {opts : LoadOptions} {tree tree' tree'' : FileTree} {names : List String}

/-- Whatever lies at some places, the paths of the collection lead to the same. -/
def KeepsOff (l : Loader) (tree : FileTree) (places : Place → Prop) : Prop :=
  ∀ tree', FileTree.AgreeBut places tree tree' → ∀ names, (∀ n ∈ names, IsName n) →
    ∀ place node,
      tree'.locate true (folderPath l.originals (relOf names)) = .ok (.found place node) ↔
        tree.locate true (folderPath l.originals (relOf names)) = .ok (.found place node)

/-- The collection lies beside its snapshots: work on snapshots changes nothing but some places that
the paths of the collection do not depend on. -/
def Beside (l : Loader) (tree : FileTree) : Prop :=
  ∃ places, l.store.WorksIn tree places ∧ l.KeepsOff tree places

namespace Beside

/-- Work on snapshots leaves the collection beside them. -/
theorem of_work (h : l.Beside tree) (hwork : l.store.Work SnapshotStore.IsRel tree tree') :
    l.Beside tree' := by
  obtain ⟨places, hworks, hoff⟩ := h
  have hagree := hworks tree' hwork
  refine ⟨places, fun tree'' hmore => ?_, fun tree'' hmore names hnames place node => ?_⟩
  · exact hagree.symm.trans (hworks tree'' (hwork.trans hmore))
  · rw [hoff tree'' (hagree.trans hmore) names hnames, hoff tree' hagree names hnames]

theorem found (h : l.Beside tree) (hwork : l.store.Work SnapshotStore.IsRel tree tree')
    (hnames : ∀ n ∈ names, IsName n) (place : Place) (node : FileNode) :
    tree'.locate true (folderPath l.originals (relOf names)) = .ok (.found place node) ↔
      tree.locate true (folderPath l.originals (relOf names)) = .ok (.found place node) := by
  obtain ⟨places, hworks, hoff⟩ := h
  exact hoff tree' (hworks tree' hwork) names hnames place node

/-- A name that has come about in a folder of the collection is not listed. -/
theorem entry?_eq_none (h : l.Beside tree) (hwork : l.store.Work SnapshotStore.IsRel tree tree')
    (hnames : ∀ n ∈ names, IsName n) {folder : Place} {time : Instant}
    (hfolder : tree.locate true (folderPath l.originals (relOf names)) =
      .ok (.found folder (.folder time)))
    {name : Name} (hname : name.IsProper) (hnew : tree.node? (folder ++ [name]) = none) :
    tree'.entry? (folderPath l.originals (relOf names)) name = none := by
  cases name with
  | raw bytes => rfl
  | text n =>
    rw [FileTree.entry?_text]
    cases hstat : tree'.stat ((folderPath l.originals (relOf names)).join n) with
    | error cause => rfl
    | ok node =>
      obtain ⟨place, hfound⟩ := FileTree.stat_eq_ok_iff.1 hstat
      rw [folderPath_concat l.originals hnames hname,
        h.found hwork (forall_isName_concat hnames hname),
        ← folderPath_concat l.originals hnames hname] at hfound
      exact absurd hfound (FileTree.locate_join_ne_found hname hfolder hnew)

/-- **The collection looks the same after any work on its snapshots.** -/
theorem looksSame (h : l.Beside tree) (htree : tree.WellFormed)
    (hwork : l.store.Work SnapshotStore.IsRel tree tree') : l.LooksSame tree tree' := by
  have hfound := fun names (hnames : ∀ n ∈ names, IsName n) place node =>
    h.found hwork hnames place node
  refine ⟨hfound, fun names hnames folder time hfolder => ?_⟩
  have htree' := hwork.wellFormed htree
  obtain ⟨more, hmore⟩ := hwork.places
  have hnamesIn : ∀ t : FileTree, t.namesIn folder =
      (t.nodes.map Prod.fst).filterMap (FileTree.nameIn? folder) := fun t => by
    rw [FileTree.namesIn, List.filterMap_map]
    rfl
  -- the places that have come about are listed last, if they are listed at all
  have hnew : ∀ name ∈ more.filterMap (FileTree.nameIn? folder),
      tree.node? (folder ++ [name]) = none := by
    intro name hname
    obtain ⟨place, hplace, hin⟩ := List.mem_filterMap.1 hname
    rw [FileTree.nameIn?_eq_some_iff.1 hin] at hplace
    have hplaces := htree'.places
    rw [hmore] at hplaces
    cases hnode : tree.node? (folder ++ [name]) with
    | none => rfl
    | some node =>
      have hmem := List.mem_map_of_mem (f := Prod.fst) (FileTree.mem_nodes_of_node? hnode)
      exact absurd rfl ((List.pairwise_append.1 hplaces).2.2 _ hmem _ hplace)
  have hsplit := hnamesIn tree'
  rw [hmore, List.filterMap_append, ← hnamesIn tree] at hsplit
  rw [hsplit, List.filterMap_append]
  have hnone : (more.filterMap (FileTree.nameIn? folder)).filterMap
      (tree'.entry? (folderPath l.originals (relOf names))) = [] := by
    refine List.filterMap_eq_nil_iff.2 fun name hname => ?_
    have hproper : name.IsProper := htree'.isProper_of_mem_namesIn
      (hsplit ▸ List.mem_append_right _ hname)
    exact h.entry?_eq_none hwork hnames hfolder hproper (hnew name hname)
  rw [hnone, List.append_nil]
  exact List.filterMap_congr fun name hname =>
    entry?_of_found hnames (htree.isProper_of_mem_namesIn hname) hfound

/-- The next walk makes the same stops. -/
theorem stops_eq (h : l.Beside tree) (htree : tree.WellFormed)
    (hwork : l.store.Work SnapshotStore.IsRel tree tree') : l.stops tree' = l.stops tree :=
  (h.looksSame htree hwork).stops_eq htree

end Beside

/-! ### The stops of a load -/

/-- A way to keep snapshots that does nothing but work for the path that it is about. -/
def IsWork (l : Loader) (keep : Keeping) : Prop :=
  ∀ rel snapshot t, l.store.Work (· = rel) t (keep rel snapshot t)

theorem isWork_keep (l : Loader) : l.IsWork l.keep := fun rel snapshot t =>
  l.store.work_write t rel snapshot

theorem IsWork.wellFormed {keep : Keeping} (h : l.IsWork keep) (rel : String) (snapshot : Snapshot)
    (t : FileTree) (ht : t.WellFormed) : (keep rel snapshot t).WellFormed :=
  (h rel snapshot t).wellFormed ht

/-- A stop works on nothing but the snapshot of its path, and only if the options ask for it. -/
theorem work_afterStop {keep : Keeping} (hkeep : l.IsWork keep) (tree : FileTree) (s : Stop) :
    l.store.Work (fun rel => opts.updateDisk = true ∧ rel = s.rel) tree
      (l.afterStop keep opts tree s) := by
  unfold afterStop
  split
  · exact .none
  · unfold Turn.treeWith
    split
    · next hkept =>
      have hupdate := (Bool.and_eq_true_iff.1 hkept).2
      exact (hkeep s.rel _ tree).mono fun rel hrel => ⟨hupdate, hrel⟩
    · exact .none

theorem work_foldl_afterStop {keep : Keeping} (hkeep : l.IsWork keep) (tree : FileTree)
    (stops : List Stop) :
    l.store.Work (fun rel => opts.updateDisk = true ∧ ∃ s ∈ stops, rel = s.rel) tree
      (stops.foldl (l.afterStop keep opts) tree) := by
  induction stops generalizing tree with
  | nil => exact .none
  | cons s stops ih =>
    have hnow : l.store.Work (fun rel => opts.updateDisk = true ∧ ∃ s' ∈ s :: stops, rel = s'.rel)
        tree (l.afterStop keep opts tree s) :=
      (work_afterStop hkeep tree s).mono fun rel hrel => ⟨hrel.1, s, List.mem_cons_self, hrel.2⟩
    refine hnow.trans ((ih (l.afterStop keep opts tree s)).mono fun rel hrel => ⟨hrel.1, ?_⟩)
    exact hrel.2.imp fun _ h => ⟨List.mem_cons_of_mem _ h.1, h.2⟩

/-- **Beside its snapshots, a collection is walked as it was before the load**, whatever becomes of
keeping them. -/
theorem stopsWith_eq_stops {keep : Keeping} (hkeep : l.IsWork keep) (htree : tree.WellFormed)
    (hbeside : opts.updateDisk = true → l.Beside tree) :
    l.stopsWith keep opts tree = l.stops tree := by
  have hwalk : ∀ time, l.stopsFrom (l.afterStop keep opts) maxFolders tree [("", time)] =
      l.stopsFrom (fun t _ => t) maxFolders tree [("", time)] := by
    intro time
    -- the disk of the load has been worked on, if the options ask for it
    refine stopsFrom_congr (fun t t' => t = tree ∧ l.store.Work
      (fun rel => opts.updateDisk = true ∧ SnapshotStore.IsRel rel) tree t')
      (fun t t' ht => ht.1 ▸ htree) ?_ ?_ ⟨rfl, .none⟩ (isRow_root time)
    · rintro t t' ⟨hsame, hwork⟩ names hnames
      subst hsame
      cases hupdate : opts.updateDisk with
      | true =>
        have hwork' : l.store.Work SnapshotStore.IsRel t t' := hwork.mono fun rel hrel => hrel.2
        exact ((hbeside hupdate).looksSame htree hwork').listing_eq hnames
      | false =>
        cases hwork with
        | none => rfl
        | more _ mem => exact absurd (mem.1.symm.trans hupdate) nofun
    · rintro _ t' s names ⟨rfl, hwork⟩ hnames hrel
      refine ⟨rfl, hwork.trans ((work_afterStop hkeep t' s).mono fun rel hmem => ⟨hmem.1, ?_⟩)⟩
      exact ⟨names, hnames, hmem.2.trans hrel⟩
  unfold stopsWith stops
  cases tree.stat l.originals with
  | error cause => rfl
  | ok root => exact hwalk root.modified

theorem stopsOn_eq_stops (htree : tree.WellFormed)
    (hbeside : opts.updateDisk = true → l.Beside tree) : l.stopsOn opts tree = l.stops tree :=
  stopsWith_eq_stops l.isWork_keep htree hbeside

/-! ### Collections without links -/

/-- A collection in a folder without links keeps off what lies beside the folder, if its root would
lead there without that. -/
theorem keepsOff_of_unlinked {root folder : Place} {time : Instant}
    (hfolder : (tree.only fun q => !root.isPrefixOf q).locate true (l.originals.join ".") =
      .ok (.found folder (.folder time)))
    (hunlinked : tree.UnlinkedBelow folder) (hout : ¬ root <+: folder) (hout' : ¬ folder <+: root) :
    l.KeepsOff tree (root <+: ·) := by
  have hbelow : ∀ rest, ¬ root <+: folder ++ rest := fun rest h =>
    (List.prefix_or_prefix_of_prefix h (List.prefix_append folder rest)).elim hout hout'
  -- both disks have all that is elsewhere
  have hleads : ∀ t, FileTree.AgreeBut (root <+: ·) tree t →
      t.locate true (l.originals.join ".") = .ok (.found folder (.folder time)) := by
    intro t hagree
    have hkeeps : FileTree.Keeps [] (tree.only fun q => !root.isPrefixOf q) t := by
      refine ⟨hagree.current, fun q node hnode => ⟨node, ?_, .refl node, fun _ => rfl⟩⟩
      rw [FileTree.node?_only] at hnode
      split at hnode
      · next hq =>
        rw [← hnode]
        refine hagree.node q fun hbelow => ?_
        rw [List.isPrefixOf_iff_prefix.2 hbelow] at hq
        cases hq
      · cases hnode
    obtain ⟨node', hfound, -, hsame⟩ := hkeeps.locate_found hfolder
    rw [hfound, hsame List.not_mem_nil]
  intro tree' hagree names hnames place node
  rw [locate_folderPath_congr (hleads tree (.refl tree)) (hleads tree' hagree) hunlinked
    (fun rest => hagree.node _ (hbelow rest)) hnames]

/-- **A collection without links lies beside its snapshots**, if the root of these leads to a place
beside it, below which there are no links either. -/
theorem beside_of_unlinked {root folder : Place} {time : Instant} (hclosed : tree.Closed)
    (hroot : l.store.RootAt tree root) (hplain : tree.UnlinkedBelow root)
    (hfolder : (tree.only fun q => !root.isPrefixOf q).locate true (l.originals.join ".") =
      .ok (.found folder (.folder time)))
    (hunlinked : tree.UnlinkedBelow folder) (hout : ¬ root <+: folder) (hout' : ¬ folder <+: root) :
    l.Beside tree :=
  ⟨_, SnapshotStore.worksIn_of_rootAt hclosed hroot hplain,
    keepsOff_of_unlinked hfolder hunlinked hout hout'⟩

/-- So does one on a disk that has no links at all. -/
theorem beside_of_isPlain (root : Place) {folder : Place} {time : Instant} (hclosed : tree.Closed)
    (hplain : ∀ p ∈ tree.nodes, p.2.isPlain = true) (hroot : l.store.RootAt tree root)
    (hfolder : (tree.only fun q => !root.isPrefixOf q).locate true (l.originals.join ".") =
      .ok (.found folder (.folder time)))
    (hout : ¬ root <+: folder) (hout' : ¬ folder <+: root) : l.Beside tree := by
  have hunlinked : ∀ place, tree.UnlinkedBelow place := by
    intro place rest link _ hlink
    cases hplain _ (FileTree.mem_nodes_of_node? hlink)
  exact beside_of_unlinked hclosed hroot (hunlinked root) hfolder (hunlinked folder) hout hout'

end Loader
end AlbumIndex
