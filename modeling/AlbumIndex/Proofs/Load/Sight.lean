import AlbumIndex.Proofs.Disk.Places
import AlbumIndex.Proofs.Load.Stops
import Mathlib.Data.List.Basic

/-!
# What a walk can see

A walk follows the paths of the collection and no others.  If they lead to the same on two disks,
and the folders there list the same, then the walks over both make the same stops.  That is so if
the paths keep to some of the places of a disk: there might as well be nothing else.  So what is
stored beside the collection is not seen by a walk, be it one damaged file or a whole folder of
snapshots.

## Main definitions

* `Loader.LooksSame` — two disks on which a collection looks the same.
* `FileTree.only` — a disk with nothing but some of its places.
* `Loader.KeepsTo` — the paths of a collection keep to some of the places.

## Main results

* `Loader.LooksSame.stops_eq` — walks over two such disks make the same stops.
* `Loader.keepsTo_of_unlinked` — a collection without links keeps to its own folder.
* `Loader.stops_only` — **a walk sees nothing but the places that the paths keep to.**
* `Loader.stops_eq_of_keepsTo` — **what differs elsewhere makes no difference to it.**
-/

namespace AlbumIndex

open Calendar Disk

/-! ### Disks on which a collection looks the same -/

theorem folderPath_concat {names : List String} (originals : FilePath)
    (hnames : ∀ n ∈ names, IsName n) {name : String} (hname : IsName name) :
    (folderPath originals (relOf names)).join name =
      folderPath originals (relOf (names ++ [name])) := by
  have hlonger := forall_isName_concat hnames hname
  rw [folderPath, folderPath, if_neg (mt (relOf_eq_empty_iff hlonger).1 (by simp))]
  by_cases hnil : names = []
  · subst hnil
    rfl
  · rw [if_neg (mt (relOf_eq_empty_iff hnames).1 hnil)]
    exact FilePath.join_relOf_join hnames hnil hname

namespace Loader

variable {l : Loader} {tree tree' : FileTree} {names : List String} {p : FilePath}

/-- The paths of the collection lead to the same on both disks, and what they find there lists the
same. -/
structure LooksSame (l : Loader) (tree tree' : FileTree) : Prop where
  found : ∀ names, (∀ n ∈ names, IsName n) → ∀ place node,
    tree'.locate true (folderPath l.originals (relOf names)) = .ok (.found place node) ↔
      tree.locate true (folderPath l.originals (relOf names)) = .ok (.found place node)
  listed : ∀ names, (∀ n ∈ names, IsName n) → ∀ folder time,
    tree.locate true (folderPath l.originals (relOf names)) = .ok (.found folder (.folder time)) →
      (tree'.namesIn folder).filterMap (tree'.entry? (folderPath l.originals (relOf names))) =
        (tree.namesIn folder).filterMap (tree.entry? (folderPath l.originals (relOf names)))

theorem list_of_found {folder : Place} {time : Instant}
    (h : tree.locate true p = .ok (.found folder (.folder time))) :
    tree.list p = .ok ((tree.namesIn folder).filterMap (tree.entry? p)) := by
  rw [FileTree.list, h]

/-- What is told of the paths of the collection is the same if they lead to the same. -/
theorem toOption_stat_of_found {p : FilePath} (h : ∀ place node,
    tree'.locate true p = .ok (.found place node) ↔ tree.locate true p = .ok (.found place node)) :
    (tree'.stat p).toOption = (tree.stat p).toOption := by
  have hiff : ∀ node, tree'.stat p = .ok node ↔ tree.stat p = .ok node := fun node => by
    simp only [FileTree.stat_eq_ok_iff, h]
  cases hstat : tree.stat p with
  | ok node => rw [(hiff node).2 hstat]
  | error cause =>
    cases hstat' : tree'.stat p with
    | error cause' => rfl
    | ok node => rw [(hiff node).1 hstat'] at hstat; cases hstat

/-- A name is listed in the same way if its path leads to the same. -/
theorem entry?_of_found (hnames : ∀ n ∈ names, IsName n) {name : Name} (hname : name.IsProper)
    (h : ∀ names, (∀ n ∈ names, IsName n) → ∀ place node,
      tree'.locate true (folderPath l.originals (relOf names)) = .ok (.found place node) ↔
        tree.locate true (folderPath l.originals (relOf names)) = .ok (.found place node)) :
    tree'.entry? (folderPath l.originals (relOf names)) name =
      tree.entry? (folderPath l.originals (relOf names)) name := by
  cases name with
  | raw bytes => rfl
  | text n =>
    rw [FileTree.entry?_text, FileTree.entry?_text, folderPath_concat l.originals hnames hname,
      toOption_stat_of_found (h _ (forall_isName_concat hnames hname))]

namespace LooksSame

theorem listing_eq (h : l.LooksSame tree tree') (hnames : ∀ n ∈ names, IsName n) :
    l.listing tree' (relOf names) = l.listing tree (relOf names) := by
  unfold listing
  cases hlist : tree.list (folderPath l.originals (relOf names)) with
  | ok entries =>
    obtain ⟨folder, time, hfound, rfl⟩ := FileTree.list_eq_ok hlist
    rw [list_of_found ((h.found names hnames _ _).2 hfound), h.listed names hnames _ _ hfound]
  | error cause =>
    cases hlist' : tree'.list (folderPath l.originals (relOf names)) with
    | error cause' => rfl
    | ok entries =>
      obtain ⟨folder, time, hfound, -⟩ := FileTree.list_eq_ok hlist'
      rw [list_of_found ((h.found names hnames _ _).1 hfound)] at hlist
      cases hlist

theorem toOption_stat_originals (h : l.LooksSame tree tree') :
    (tree'.stat l.originals).toOption = (tree.stat l.originals).toOption :=
  toOption_stat_of_found (h.found [] forall_isName_nil)

theorem stat_originals (h : l.LooksSame tree tree') {root : FileNode}
    (hroot : tree.stat l.originals = .ok root) : tree'.stat l.originals = .ok root := by
  have hsame := h.toOption_stat_originals
  rw [hroot] at hsame
  cases hroot' : tree'.stat l.originals with
  | error cause => rw [hroot'] at hsame; cases hsame
  | ok root' => rw [hroot'] at hsame; cases hsame; rfl

/-- **Walks over two disks on which the collection looks the same make the same stops.** -/
theorem stops_eq (htree : tree.WellFormed) (h : l.LooksSame tree tree') :
    l.stops tree' = l.stops tree := by
  have hsame := h.toOption_stat_originals
  have hwalk : ∀ time, l.stopsFrom (fun t _ => t) maxFolders tree' [("", time)] =
      l.stopsFrom (fun t _ => t) maxFolders tree [("", time)] := by
    intro time
    refine stopsFrom_congr (fun t t' => t = tree ∧ t' = tree') (fun t t' ht => ht.1 ▸ htree) ?_
      (fun _ _ _ _ ht _ _ => ht) ⟨rfl, rfl⟩ (isRow_root time)
    rintro _ _ ⟨rfl, rfl⟩ names hnames
    exact h.listing_eq hnames
  unfold stops
  cases hroot : tree.stat l.originals with
  | error cause =>
    rw [hroot] at hsame
    cases hroot' : tree'.stat l.originals with
    | error cause' => rfl
    | ok root => rw [hroot'] at hsame; cases hsame
  | ok root =>
    rw [hroot] at hsame
    cases hroot' : tree'.stat l.originals with
    | error cause' => rw [hroot'] at hsame; cases hsame
    | ok root' =>
      rw [hroot'] at hsame
      cases hsame
      exact hwalk _

end LooksSame
end Loader

/-! ### Some of the places -/

namespace Disk.FileTree

variable {t t' : FileTree} {keep : Place → Bool} {place : Place} {node : FileNode} {p : FilePath}

/-- The disk with nothing but some of its places. -/
def only (t : FileTree) (keep : Place → Bool) : FileTree :=
  { t with nodes := t.nodes.filter fun entry => keep entry.1 }

theorem node?_only (t : FileTree) (keep : Place → Bool) (place : Place) :
    (t.only keep).node? place = if keep place then t.node? place else none :=
  lookup_filter keep place t.nodes

/-- A path that leads somewhere leads there too if there is more on the disk. -/
theorem locate_of_only (h : (t.only keep).locate true p = .ok (.found place node)) :
    t.locate true p = .ok (.found place node) := by
  have hkeeps : Keeps [] (t.only keep) t := by
    refine ⟨rfl, fun q old hold => ⟨old, ?_, .refl old, fun _ => rfl⟩⟩
    rw [node?_only] at hold
    split at hold
    · exact hold
    · cases hold
  obtain ⟨node', hfound, -, hsame⟩ := hkeeps.locate_found h
  rw [hfound, hsame List.not_mem_nil]

/-- The time of changes to come is not looked at. -/
theorem locate_of_nodes_eq (hnodes : t'.nodes = t.nodes) (hcurrent : t'.current = t.current)
    (h : t.locate true p = .ok (.found place node)) :
    t'.locate true p = .ok (.found place node) := by
  have hkeeps : Keeps [] t t' :=
    ⟨hcurrent, fun q old hold =>
      ⟨old, by rw [node?, hnodes]; exact hold, .refl old, fun _ => rfl⟩⟩
  obtain ⟨node', hfound, -, hsame⟩ := hkeeps.locate_found h
  rw [hfound, hsame List.not_mem_nil]

/-- A name that a folder does not have leads nowhere. -/
theorem locate_join_ne_found {name : String} (hname : IsName name) {folder : Place} {time : Instant}
    (hfolder : t.locate true p = .ok (.found folder (.folder time)))
    (hnone : t.node? (folder ++ [.text name]) = none) :
    t.locate true (p.join name) ≠ .ok (.found place node) := by
  intro hfound
  have hnames : ∀ n ∈ [name], IsName n := by simpa using hname
  obtain ⟨around, _, hdot, follow, hwalk⟩ := locate_join hnames (by simp) hfound
  -- the name is followed from the folder itself
  have hdotless := (locate_of_locate_dot true (locate_eq_ok_iff.1 hfolder).2.1 hdot).eq
  rw [hfolder] at hdotless
  cases hdotless
  rw [stepsInto, List.map_singleton, walk, node?_of_locate hfolder] at hwalk
  dsimp only at hwalk
  rw [hnone] at hwalk
  split at hwalk
  · cases hwalk
  · cases hwalk

end Disk.FileTree

namespace Loader

variable {l : Loader} {tree tree' : FileTree} {keep : Place → Bool} {names : List String}

/-- Whatever a path of the collection leads to, it leads there if there is nothing but some of the
places. -/
def KeepsTo (l : Loader) (tree : FileTree) (keep : Place → Bool) : Prop :=
  ∀ names, (∀ n ∈ names, IsName n) → ∀ place node,
    tree.locate true (folderPath l.originals (relOf names)) = .ok (.found place node) →
      (tree.only keep).locate true (folderPath l.originals (relOf names)) = .ok (.found place node)

/-- A collection in a folder without links looks the same from all its paths on disks that have the
same in the folder. -/
theorem locate_folderPath_congr {folder : Place} {time : Instant}
    (hroot : tree.locate true (l.originals.join ".") = .ok (.found folder (.folder time)))
    (hroot' : tree'.locate true (l.originals.join ".") = .ok (.found folder (.folder time)))
    (hunlinked : tree.UnlinkedBelow folder)
    (hsame : ∀ rest, tree'.node? (folder ++ rest) = tree.node? (folder ++ rest))
    (hnames : ∀ n ∈ names, IsName n) :
    tree'.locate true (folderPath l.originals (relOf names)) =
      tree.locate true (folderPath l.originals (relOf names)) := by
  by_cases hnil : names = []
  · subst hnil
    rw [relOf_nil, folderPath, if_pos rfl]
    by_cases hne : l.originals.text = ""
    · simp only [FileTree.locate, hne, ↓reduceIte]
    · rw [(FileTree.locate_of_locate_dot true hne hroot).eq,
        (FileTree.locate_of_locate_dot true hne hroot').eq]
  · rw [folderPath, if_neg (mt (relOf_eq_empty_iff hnames).1 hnil)]
    exact FileTree.locate_join_congr hnames hnil hroot hroot' hunlinked hsame

/-- Below a folder without links, with all that lies there, the paths of the collection keep to the
places of the folder. -/
theorem keepsTo_of_unlinked {folder : Place} {time : Instant}
    (hroot : (tree.only keep).locate true (l.originals.join ".") = .ok (.found folder (.folder time)))
    (hunlinked : tree.UnlinkedBelow folder) (hkeep : ∀ rest, keep (folder ++ rest) = true) :
    l.KeepsTo tree keep := by
  have hbelow : ∀ rest, (tree.only keep).node? (folder ++ rest) = tree.node? (folder ++ rest) :=
    fun rest => by rw [FileTree.node?_only, if_pos (hkeep rest)]
  intro names hnames place node hfound
  rwa [locate_folderPath_congr (FileTree.locate_of_only hroot) hroot hunlinked hbelow hnames]

/-- What a folder has elsewhere is not listed. -/
theorem KeepsTo.entry?_eq_none (h : l.KeepsTo tree keep) (hnames : ∀ n ∈ names, IsName n)
    {folder : Place} {time : Instant}
    (hfolder : tree.locate true (folderPath l.originals (relOf names)) =
      .ok (.found folder (.folder time)))
    {name : Name} (hname : name.IsProper) (hout : ¬ keep (folder ++ [name]) = true) :
    tree.entry? (folderPath l.originals (relOf names)) name = none := by
  cases name with
  | raw bytes => rfl
  | text n =>
    have hnone : (tree.only keep).node? (folder ++ [.text n]) = none := by
      rw [FileTree.node?_only, if_neg hout]
    rw [FileTree.entry?_text]
    cases hstat : tree.stat ((folderPath l.originals (relOf names)).join n) with
    | error cause => rfl
    | ok node =>
      obtain ⟨place, hfound⟩ := FileTree.stat_eq_ok_iff.1 hstat
      rw [folderPath_concat l.originals hnames hname] at hfound
      have hfound' := h _ (forall_isName_concat hnames hname) _ _ hfound
      rw [← folderPath_concat l.originals hnames hname] at hfound'
      exact absurd hfound' (FileTree.locate_join_ne_found hname (h _ hnames _ _ hfolder) hnone)

/-- The collection looks the same if there is nothing but the places that its paths keep to. -/
theorem KeepsTo.looksSame (htree : tree.WellFormed) (h : l.KeepsTo tree keep) :
    l.LooksSame tree (tree.only keep) := by
  have hfound := fun names hnames place node =>
    (⟨FileTree.locate_of_only, h names hnames place node⟩ :
      (tree.only keep).locate true (folderPath l.originals (relOf names)) = .ok (.found place node) ↔
        tree.locate true (folderPath l.originals (relOf names)) = .ok (.found place node))
  refine ⟨hfound, fun names hnames folder time hfolder => ?_⟩
  rw [FileTree.namesIn, FileTree.namesIn, FileTree.only, List.filterMap_filter,
    List.filterMap_filterMap, List.filterMap_filterMap]
  refine List.filterMap_congr fun entry hentry => ?_
  cases hname : FileTree.nameIn? folder entry.1 with
  | none => simp [hname]
  | some name =>
    have hplace := FileTree.nameIn?_eq_some_iff.1 hname
    have hproper : name.IsProper := htree.names entry hentry name (by simp [hplace])
    simp only [hname, Option.bind_some]
    by_cases hkeep : keep entry.1 = true
    · simp only [hkeep, ↓reduceIte, Option.bind_some]
      exact entry?_of_found hnames hproper hfound
    · rw [h.entry?_eq_none hnames hfolder hproper (hplace ▸ hkeep)]
      simp [hkeep]

/-- **A walk sees nothing but the places that the paths of the collection keep to.** -/
theorem stops_only (htree : tree.WellFormed) (h : l.KeepsTo tree keep) :
    l.stops (tree.only keep) = l.stops tree :=
  (h.looksSame htree).stops_eq htree

/-- **What differs where no path of the collection leads makes no difference to a walk**: two disks
that are the same at the places that the paths keep to on both. -/
theorem stops_eq_of_keepsTo (htree : tree.WellFormed) (htree' : tree'.WellFormed)
    (h : l.KeepsTo tree keep) (h' : l.KeepsTo tree' keep) (hcurrent : tree'.current = tree.current)
    (hnodes : (tree'.only keep).nodes = (tree.only keep).nodes) :
    l.stops tree' = l.stops tree := by
  have hwell : (tree.only keep).WellFormed :=
    ⟨htree.places.sublist (List.Sublist.map _ List.filter_sublist),
      fun entry hentry => htree.names entry (List.mem_filter.1 hentry).1⟩
  have hfound := fun names (_ : ∀ n ∈ names, IsName n) place node =>
    (⟨FileTree.locate_of_nodes_eq hnodes.symm hcurrent.symm,
        FileTree.locate_of_nodes_eq hnodes hcurrent⟩ :
      (tree'.only keep).locate true (folderPath l.originals (relOf names)) = .ok (.found place node) ↔
        (tree.only keep).locate true (folderPath l.originals (relOf names)) =
          .ok (.found place node))
  have hsame : l.LooksSame (tree.only keep) (tree'.only keep) := by
    refine ⟨hfound, fun names hnames folder time _ => ?_⟩
    rw [FileTree.namesIn, hnodes, ← FileTree.namesIn]
    refine List.filterMap_congr fun name hname => ?_
    exact entry?_of_found hnames (hwell.isProper_of_mem_namesIn hname) hfound
  rw [← stops_only htree h, ← stops_only htree' h', hsame.stops_eq hwell]

end Loader
end AlbumIndex
