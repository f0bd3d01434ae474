import AlbumIndex.Load.Walk
import AlbumIndex.Proofs.Disk.Tree

/-!
# The stops of a walk

A walk over a collection stops at its root, and from each folder that it can list it goes on to the
subfolders, first come first served.  What it meets at a stop depends on the disk at that time, and
the disk on what was done at the stops before.  But wherever each stop leaves the disk in order, a
walk comes to an end, it never stops twice at one path, and it stops at all folders that can be
reached through the listings it has seen.

## Main definitions

* `Stop`, `Stop.below` — a folder that a walk comes to, and where it goes on from there.
* `Loader.stopsFrom` — the stops at a row of folders and below them.
* `Loader.stops` — the stops of a walk over a disk that stays as it is.
* `Reaches` — the folders that a walk has to come to.

## Main results

* `Loader.map_folder_stopsFrom` — **first come first served**: a walk stops at its first folders, and
  then at those below each of its stops, in order.
* `Loader.stopsFrom_eq_row` — each stop lists what the disk has when its time comes.
* `Loader.stopsFrom_nodup` — no walk stops twice at one path.
* `Loader.exists_stop_iff_reaches` — **a walk stops at the folders that are reached, and at no others.**
* `Loader.stopsFrom_congr` — walks that list the same at each stop make the same stops.
-/

namespace AlbumIndex

open Calendar Disk

/-! ### Stops -/

/-- A folder that a walk comes to. -/
structure Stop where
  rel : String
  /-- When it was changed, as seen in the listing of the folder around it. -/
  modified : Instant
  /-- Its entries; none if it cannot be listed. -/
  entries : Option (List Entry)
deriving DecidableEq

def Entry.isSubfolder (e : Entry) : Bool := e.kind == .subfolder

theorem Entry.isSubfolder_iff {e : Entry} :
    e.isSubfolder = true ↔ e.isFile = false ∧ e.name ∉ ignoredNames := by
  unfold isSubfolder kind
  by_cases hname : e.name ∈ ignoredNames
  · simp [hname]
  · cases hfile : e.isFile with
    | false => simp [hname]
    | true =>
      simp only [hname, ↓reduceIte, Bool.not_true, Bool.false_eq_true]
      split
      · simp
      · split <;> simp

namespace Stop

/-- The path of a stop and its time. -/
def folder (s : Stop) : String × Instant := (s.rel, s.modified)

/-- The subfolders that a walk goes on to. -/
def below (s : Stop) : List (String × Instant) :=
  ((s.entries.getD []).filter Entry.isSubfolder).map fun e => (joinRel s.rel e.name, e.modified)

end Stop

namespace Loader

/-- The entries of a folder of the collection; none if it cannot be listed. -/
def listing (l : Loader) (tree : FileTree) (rel : String) : Option (List Entry) :=
  (tree.list (folderPath l.originals rel)).toOption

/-- The stop at a folder. -/
def stopAt (l : Loader) (tree : FileTree) (folder : String × Instant) : Stop :=
  ⟨folder.1, folder.2, l.listing tree folder.1⟩

variable (l : Loader) (after : FileTree → Stop → FileTree)

/-- The stops at a row of folders; each leaves the next one some disk. -/
def row : FileTree → List (String × Instant) → List Stop
  | _, [] => []
  | tree, folder :: folders =>
    let s := l.stopAt tree folder
    s :: row (after tree s) folders

/-- The stops at a row of folders and then at all below them, row by row. -/
def stopsFrom : Nat → FileTree → List (String × Instant) → List Stop
  | _, _, [] => []
  | 0, _, folders => folders.map fun folder => ⟨folder.1, folder.2, none⟩
  | depth + 1, tree, folders =>
    let stops := row l after tree folders
    stops ++ stopsFrom depth (stops.foldl after tree) (stops.flatMap Stop.below)

/-- The stops of a walk over a disk that stays as it is; there are none if nothing can be told about
the root. -/
def stops (tree : FileTree) : List Stop :=
  match tree.stat l.originals with
  | .ok root => l.stopsFrom (fun tree _ => tree) maxFolders tree [("", root.modified)]
  | .error _ => []

end Loader

/-! ### Rows of folders -/

/-- Different folders so many names below the root. -/
structure IsRow (depth : Nat) (folders : List (String × Instant)) : Prop where
  names : ∀ folder ∈ folders, ∃ names, names.length = depth ∧ (∀ n ∈ names, IsName n) ∧
    folder.1 = relOf names
  distinct : folders.Pairwise fun folder folder' => folder.1 ≠ folder'.1

theorem isRow_root (time : Instant) : IsRow 0 [("", time)] :=
  ⟨List.forall_mem_singleton.2 ⟨[], rfl, forall_isName_nil, rfl⟩, List.pairwise_singleton _ _⟩

theorem joinRel_inj {parent a b : String} (h : joinRel parent a = joinRel parent b) : a = b := by
  unfold joinRel at h
  split at h
  · exact h
  · have hchars := congrArg String.toList h
    simp only [String.toList_append, List.append_cancel_left_eq] at hchars
    exact String.toList_inj.1 hchars

/-- A listing shows names that can be followed, and none of them twice. -/
def Stop.InOrder (s : Stop) : Prop :=
  ∀ entries, s.entries = some entries →
    (entries.map Entry.name).Nodup ∧ ∀ e ∈ entries, IsName e.name

theorem Stop.mem_below_iff {s : Stop} {folder : String × Instant} :
    folder ∈ s.below ↔ ∃ entries, s.entries = some entries ∧
      ∃ e ∈ entries, e.isSubfolder = true ∧ (joinRel s.rel e.name, e.modified) = folder := by
  cases hentries : s.entries <;> simp [below, hentries, and_assoc]

/-- Below a row of folders lies another one. -/
theorem IsRow.below {depth : Nat} {stops : List Stop} (h : IsRow depth (stops.map Stop.folder))
    (hstops : ∀ s ∈ stops, s.InOrder) : IsRow (depth + 1) (stops.flatMap Stop.below) := by
  have hnames : ∀ s ∈ stops, ∃ names, names.length = depth ∧ (∀ n ∈ names, IsName n) ∧
      s.rel = relOf names := fun s hs => h.names _ (List.mem_map_of_mem hs)
  refine ⟨fun folder hfolder => ?_, List.pairwise_flatMap.2 ⟨fun s hs => ?_, ?_⟩⟩
  · obtain ⟨s, hs, hfolder⟩ := List.mem_flatMap.1 hfolder
    obtain ⟨entries, hentries, e, he, -, rfl⟩ := Stop.mem_below_iff.1 hfolder
    obtain ⟨names, hdepth, hnames, hrel⟩ := hnames s hs
    refine ⟨names ++ [e.name], by simp [hdepth], ?_, by rw [relOf_concat, hrel]⟩
    exact forall_isName_concat hnames ((hstops s hs entries hentries).2 e he)
  · cases hentries : s.entries with
    | none => simp [Stop.below, hentries]
    | some entries =>
      rw [Stop.below, hentries, Option.getD_some, List.pairwise_map]
      have hdistinct := List.pairwise_map.1 (hstops s hs entries hentries).1
      exact (hdistinct.filter _).imp fun hne hsame => hne (joinRel_inj hsame)
  · -- the paths of subfolders tell the paths of the folders around them
    refine (List.pairwise_map.1 h.distinct).imp_of_mem
      fun {s s'} hs hs' hne folder hfolder folder' hfolder' hsame => hne ?_
    obtain ⟨entries, hentries, e, he, -, rfl⟩ := Stop.mem_below_iff.1 hfolder
    obtain ⟨entries', hentries', e', he', -, rfl⟩ := Stop.mem_below_iff.1 hfolder'
    obtain ⟨names, -, hfirst, hrel⟩ := hnames s hs
    obtain ⟨names', -, hsecond, hrel'⟩ := hnames s' hs'
    dsimp only at hsame
    rw [hrel, hrel', ← relOf_concat, ← relOf_concat] at hsame
    have hlists := relOf_inj
      (forall_isName_concat hfirst ((hstops s hs entries hentries).2 e he))
      (forall_isName_concat hsecond ((hstops s' hs' entries' hentries').2 e' he')) hsame
    rw [Stop.folder, Stop.folder, hrel, hrel', (List.append_singleton_inj.1 hlists).1]

/-! ### The course of a walk -/

namespace Loader

variable {l : Loader} {after after' : FileTree → Stop → FileTree} {tree tree' : FileTree}
  {folders : List (String × Instant)} {depth k : Nat}

theorem map_folder_row (l : Loader) (after : FileTree → Stop → FileTree) (tree : FileTree)
    (folders : List (String × Instant)) : (l.row after tree folders).map Stop.folder = folders := by
  induction folders generalizing tree with
  | nil => rfl
  | cons folder folders ih => rw [row, List.map_cons, ih]; rfl

theorem row_append (tree : FileTree) (folders more : List (String × Instant)) :
    l.row after tree (folders ++ more) =
      l.row after tree folders ++
        l.row after ((l.row after tree folders).foldl after tree) more := by
  induction folders generalizing tree with
  | nil => rfl
  | cons folder folders ih => simp [row, ih]

/-- On a disk that stays as it is, each folder is listed as it is there. -/
theorem row_of_still (tree : FileTree) (folders : List (String × Instant)) :
    l.row (fun tree _ => tree) tree folders = folders.map (l.stopAt tree) := by
  induction folders with
  | nil => rfl
  | cons folder folders ih => rw [row, List.map_cons, ih]

theorem stopsFrom_succ (l : Loader) (after : FileTree → Stop → FileTree) (depth : Nat)
    (tree : FileTree) (folders : List (String × Instant)) :
    l.stopsFrom after (depth + 1) tree folders = l.row after tree folders ++
      l.stopsFrom after depth ((l.row after tree folders).foldl after tree)
        ((l.row after tree folders).flatMap Stop.below) := by
  cases folders with
  | nil => cases depth <;> rfl
  | cons folder folders => rfl

theorem stopsFrom_zero (l : Loader) (after : FileTree → Stop → FileTree) (tree : FileTree)
    (folders : List (String × Instant)) :
    l.stopsFrom after 0 tree folders = folders.map fun folder => ⟨folder.1, folder.2, none⟩ := by
  cases folders <;> rfl

/-- **First come first served**: a walk stops at the folders it begins with, and then at those below
its first stop, those below its second stop, and so on. -/
theorem map_folder_stopsFrom (l : Loader) (after : FileTree → Stop → FileTree) (depth : Nat)
    (tree : FileTree) (folders : List (String × Instant)) :
    (l.stopsFrom after depth tree folders).map Stop.folder =
      folders ++ (l.stopsFrom after depth tree folders).flatMap Stop.below := by
  induction depth generalizing tree folders with
  | zero => simp [stopsFrom_zero, List.flatMap_map, Stop.below, Function.comp_def, Stop.folder]
  | succ depth ih =>
    rw [stopsFrom_succ, List.map_append, ih, map_folder_row, List.flatMap_append]

theorem wellFormed_foldl (hafter : ∀ t s, t.WellFormed → (after t s).WellFormed)
    (htree : tree.WellFormed) (stops : List Stop) : (stops.foldl after tree).WellFormed := by
  induction stops generalizing tree with
  | nil => exact htree
  | cons s stops ih => exact ih (hafter tree s htree)

theorem inOrder_stopAt (htree : tree.WellFormed) (folder : String × Instant) :
    (l.stopAt tree folder).InOrder := by
  intro entries hentries
  cases hlist : tree.list (folderPath l.originals folder.1) with
  | error cause => rw [stopAt, listing, hlist] at hentries; cases hentries
  | ok listed =>
    rw [stopAt, listing, hlist] at hentries
    cases hentries
    exact htree.list hlist

theorem inOrder_of_mem_row (hafter : ∀ t s, t.WellFormed → (after t s).WellFormed)
    (htree : tree.WellFormed) : ∀ s ∈ l.row after tree folders, s.InOrder := by
  induction folders generalizing tree with
  | nil => simp [row]
  | cons folder folders ih =>
    rw [row, List.forall_mem_cons]
    exact ⟨inOrder_stopAt htree folder, ih (hafter _ _ htree)⟩

theorem isRow_below (hafter : ∀ t s, t.WellFormed → (after t s).WellFormed)
    (htree : tree.WellFormed) (hrow : IsRow k folders) :
    IsRow (k + 1) ((l.row after tree folders).flatMap Stop.below) :=
  IsRow.below (by rwa [map_folder_row]) (inOrder_of_mem_row hafter htree)

/-- The path of each stop has as many names as those of the first row, or more. -/
theorem names_of_mem_stopsFrom (hafter : ∀ t s, t.WellFormed → (after t s).WellFormed)
    (htree : tree.WellFormed) (hrow : IsRow k folders) {s : Stop}
    (hs : s ∈ l.stopsFrom after depth tree folders) :
    ∃ names, k ≤ names.length ∧ (∀ n ∈ names, IsName n) ∧ s.rel = relOf names := by
  induction depth generalizing tree folders k with
  | zero =>
    rw [stopsFrom_zero] at hs
    obtain ⟨folder, hfolder, rfl⟩ := List.mem_map.1 hs
    obtain ⟨names, hlength, hnames, hrel⟩ := hrow.names folder hfolder
    exact ⟨names, hlength.ge, hnames, hrel⟩
  | succ depth ih =>
    rw [stopsFrom_succ, List.mem_append] at hs
    rcases hs with hs | hs
    · have hfolder := List.mem_map_of_mem (f := Stop.folder) hs
      rw [map_folder_row] at hfolder
      obtain ⟨names, hlength, hnames, hrel⟩ := hrow.names _ hfolder
      exact ⟨names, hlength.ge, hnames, hrel⟩
    · obtain ⟨names, hlength, hnames, hrel⟩ := ih (wellFormed_foldl hafter htree _)
        (isRow_below hafter htree hrow) hs
      exact ⟨names, by omega, hnames, hrel⟩

/-- **No walk stops twice at one path.** -/
theorem stopsFrom_nodup (hafter : ∀ t s, t.WellFormed → (after t s).WellFormed)
    (htree : tree.WellFormed) (hrow : IsRow k folders) :
    (l.stopsFrom after depth tree folders).Pairwise fun s s' => s.rel ≠ s'.rel := by
  induction depth generalizing tree folders k with
  | zero =>
    rw [stopsFrom_zero]
    exact List.pairwise_map.2 hrow.distinct
  | succ depth ih =>
    have hlater := isRow_below (l := l) hafter htree hrow
    have hfolders := hrow
    rw [← map_folder_row l after tree folders] at hfolders
    rw [stopsFrom_succ, List.pairwise_append]
    have hdistinct := List.pairwise_map.1 hfolders.distinct
    refine ⟨hdistinct, ih (wellFormed_foldl hafter htree _) hlater,
      fun s hs s' hs' hsame => ?_⟩
    -- a later row has longer paths
    obtain ⟨names, hlength, hnames, hrel⟩ := hfolders.names _ (List.mem_map_of_mem hs)
    obtain ⟨names', hlength', hnames', hrel'⟩ :=
      names_of_mem_stopsFrom hafter (wellFormed_foldl hafter htree _) hlater hs'
    have hlists := relOf_inj hnames hnames' (hrel.symm.trans (hsame.trans hrel'))
    rw [hlists] at hlength
    omega

/-- So deep in the collection, paths are too long to be listed. -/
theorem listing_of_deep (l : Loader) (tree : FileTree) {names : List String}
    (hnames : ∀ n ∈ names, IsName n) (hdepth : maxFolders ≤ names.length) :
    l.listing tree (relOf names) = none := by
  have hne : names ≠ [] := by
    rintro rfl
    simp [maxFolders] at hdepth
  have hbytes := length_le_utf8ByteSize_relOf hnames
  have hjoined := FilePath.utf8ByteSize_le_join (p := l.originals) (head?_relOf_ne_slash hnames)
  obtain ⟨cause, hlist⟩ := FileTree.list_eq_error_of_long (t := tree)
    (p := l.originals.join (relOf names)) (by unfold maxFolders at hdepth; omega)
  rw [listing, folderPath, if_neg (mt (relOf_eq_empty_iff hnames).1 hne), hlist]
  rfl

/-- So deep, no stop of a row can be listed. -/
theorem row_of_deep (hrow : IsRow k folders) (hdepth : maxFolders ≤ k) :
    l.row after tree folders = folders.map fun folder => ⟨folder.1, folder.2, none⟩ := by
  have hnone : ∀ t, ∀ folder ∈ folders, l.stopAt t folder = ⟨folder.1, folder.2, none⟩ := by
    intro t folder hfolder
    obtain ⟨names, hlength, hnames, hrel⟩ := hrow.names folder hfolder
    rw [stopAt, hrel, listing_of_deep l t hnames (by omega)]
  clear hrow
  induction folders generalizing tree with
  | nil => rfl
  | cons folder folders ih =>
    obtain ⟨hfirst, hrest⟩ := forall_and.1 fun t => List.forall_mem_cons.1 (hnone t)
    rw [row, List.map_cons, hfirst, ih hrest]

/-- **Each stop lists what the disk has when its time comes**: all stops are one row. -/
theorem stopsFrom_eq_row (hafter : ∀ t s, t.WellFormed → (after t s).WellFormed)
    (htree : tree.WellFormed) (hrow : IsRow k folders) (hdepth : maxFolders ≤ k + depth) :
    l.stopsFrom after depth tree folders =
      l.row after tree ((l.stopsFrom after depth tree folders).map Stop.folder) := by
  induction depth generalizing tree folders k with
  | zero =>
    have hdeep : l.row after tree folders = _ := row_of_deep hrow hdepth
    have hsame : folders.map (Stop.folder ∘ fun folder => ⟨folder.1, folder.2, none⟩) = folders :=
      List.map_id folders
    rw [stopsFrom_zero, List.map_map, hsame, hdeep]
  | succ depth ih =>
    rw [stopsFrom_succ, List.map_append, map_folder_row, row_append, ← ih
      (wellFormed_foldl hafter htree _) (isRow_below hafter htree hrow) (by omega)]

/-- **Walks that list the same at each stop make the same stops**, if what the stops do to the disks
keeps to some relation between them. -/
theorem stopsFrom_congr (R : FileTree → FileTree → Prop) (hwell : ∀ t t', R t t' → t.WellFormed)
    (hlisting : ∀ t t', R t t' → ∀ names, (∀ n ∈ names, IsName n) →
      l.listing t' (relOf names) = l.listing t (relOf names))
    (hafter : ∀ t t' s names, R t t' → (∀ n ∈ names, IsName n) → s.rel = relOf names →
      R (after t s) (after' t' s))
    (h : R tree tree') (hrow : IsRow k folders) :
    l.stopsFrom after' depth tree' folders = l.stopsFrom after depth tree folders := by
  have hrows : ∀ {t t' folders}, R t t' →
      (∀ folder ∈ folders, ∃ names, (∀ n ∈ names, IsName n) ∧ folder.1 = relOf names) →
      l.row after' t' folders = l.row after t folders ∧
        R ((l.row after t folders).foldl after t) ((l.row after t folders).foldl after' t') ∧
        ∀ s ∈ l.row after t folders, s.InOrder := by
    intro t t' folders
    induction folders generalizing t t' with
    | nil => exact fun h _ => ⟨rfl, h, by simp [row]⟩
    | cons folder folders ih =>
      intro h hfolders
      obtain ⟨⟨names, hnames, hrel⟩, hrest⟩ := List.forall_mem_cons.1 hfolders
      have hstop : l.stopAt t' folder = l.stopAt t folder := by
        rw [stopAt, stopAt, hrel, hlisting t t' h names hnames]
      obtain ⟨hrow, hafterRow, horder⟩ := ih (hafter t t' (l.stopAt t folder) names h hnames hrel) hrest
      simp only [row, hstop, hrow, List.foldl_cons, List.forall_mem_cons]
      exact ⟨trivial, hafterRow, inOrder_stopAt (hwell t t' h) folder, horder⟩
  induction depth generalizing tree tree' folders k with
  | zero => rw [stopsFrom_zero, stopsFrom_zero]
  | succ depth ih =>
    obtain ⟨hsame, hafterRow, horder⟩ := hrows h fun folder hfolder =>
      (hrow.names folder hfolder).imp fun _ h => h.2
    rw [stopsFrom_succ, stopsFrom_succ, hsame,
      ih hafterRow (IsRow.below (by rwa [map_folder_row]) horder)]

end Loader

/-! ### Folders that are reached -/

/-- The folders that a walk has to come to, with the times that listings show for them: the root,
and below each folder that can be listed everything that is no file and has no name set aside. -/
inductive Reaches (listing : String → Option (List Entry)) (rootTime : Instant) :
    String → Instant → Prop where
  | root : Reaches listing rootTime "" rootTime
  | step {rel : String} {time : Instant} {entries : List Entry} {e : Entry}
    (around : Reaches listing rootTime rel time) (listed : listing rel = some entries)
    (mem : e ∈ entries) (noFile : e.isFile = false) (notIgnored : e.name ∉ ignoredNames) :
    Reaches listing rootTime (joinRel rel e.name) e.modified

namespace Loader

variable {l : Loader} {after : FileTree → Stop → FileTree} {tree : FileTree} {rootTime : Instant}
  {listing : String → Option (List Entry)}

theorem reaches_of_mem_stopsFrom {depth : Nat} {folders : List (String × Instant)}
    (hlisting : ∀ s ∈ l.stopsFrom after depth tree folders, listing s.rel = s.entries)
    (hfolders : ∀ folder ∈ folders, Reaches listing rootTime folder.1 folder.2) {s : Stop}
    (hs : s ∈ l.stopsFrom after depth tree folders) :
    Reaches listing rootTime s.rel s.modified := by
  induction depth generalizing tree folders with
  | zero =>
    rw [stopsFrom_zero] at hs
    obtain ⟨folder, hfolder, rfl⟩ := List.mem_map.1 hs
    exact hfolders folder hfolder
  | succ depth ih =>
    rw [stopsFrom_succ] at hs hlisting
    obtain ⟨hnow, hlater⟩ := List.forall_mem_append.1 hlisting
    have hrow : ∀ s ∈ l.row after tree folders, Reaches listing rootTime s.rel s.modified := by
      intro s hs
      have hfolder := List.mem_map_of_mem (f := Stop.folder) hs
      rw [map_folder_row] at hfolder
      exact hfolders _ hfolder
    rcases List.mem_append.1 hs with hs | hs
    · exact hrow s hs
    · refine ih hlater (fun folder hfolder => ?_) hs
      obtain ⟨around, haround, hfolder⟩ := List.mem_flatMap.1 hfolder
      obtain ⟨entries, hentries, e, he, hsub, rfl⟩ := Stop.mem_below_iff.1 hfolder
      obtain ⟨hfile, hignored⟩ := Entry.isSubfolder_iff.1 hsub
      exact (hrow around haround).step ((hnow around haround).trans hentries) he hfile hignored

/-- **A walk stops at the folders that are reached, and at no others**, in view of listings that are
those it has seen. -/
theorem exists_stop_iff_reaches {depth : Nat}
    (hlisting : ∀ s ∈ l.stopsFrom after depth tree [("", rootTime)], listing s.rel = s.entries)
    {rel : String} {time : Instant} :
    (∃ s ∈ l.stopsFrom after depth tree [("", rootTime)], s.rel = rel ∧ s.modified = time) ↔
      Reaches listing rootTime rel time := by
  have hcourse := map_folder_stopsFrom l after depth tree [("", rootTime)]
  have hstop : ∀ folder ∈ [("", rootTime)] ++
      (l.stopsFrom after depth tree [("", rootTime)]).flatMap Stop.below,
      ∃ s ∈ l.stopsFrom after depth tree [("", rootTime)], s.rel = folder.1 ∧
        s.modified = folder.2 := by
    rw [← hcourse]
    rintro folder hfolder
    obtain ⟨s, hs, rfl⟩ := List.mem_map.1 hfolder
    exact ⟨s, hs, rfl, rfl⟩
  constructor
  · rintro ⟨s, hs, rfl, rfl⟩
    exact reaches_of_mem_stopsFrom hlisting (by simpa using .root) hs
  · intro hreach
    induction hreach with
    | root => exact hstop ("", rootTime) (by simp)
    | step _ listed mem noFile notIgnored ih =>
      obtain ⟨around, haround, rfl, rfl⟩ := ih
      refine hstop (joinRel _ _, _) (List.mem_append_right _ (List.mem_flatMap.2 ⟨around, haround, ?_⟩))
      exact Stop.mem_below_iff.2 ⟨_, (hlisting around haround).symm.trans listed, _, mem,
        Entry.isSubfolder_iff.2 ⟨noFile, notIgnored⟩, rfl⟩

/-! ### A disk that stays as it is -/

variable {root : FileNode}

theorem stops_eq (hroot : tree.stat l.originals = .ok root) :
    l.stops tree = l.stopsFrom (fun tree _ => tree) maxFolders tree [("", root.modified)] := by
  rw [stops, hroot]

theorem entries_of_mem_stops (htree : tree.WellFormed) {s : Stop} (hs : s ∈ l.stops tree) :
    s.entries = l.listing tree s.rel := by
  unfold stops at hs
  split at hs
  · next root _ =>
    rw [stopsFrom_eq_row (fun _ _ h => h) htree (isRow_root root.modified) (by simp),
      row_of_still] at hs
    obtain ⟨folder, -, rfl⟩ := List.mem_map.1 hs
    rfl
  · cases hs

/-- A walk over a disk that stays as it is stops at the folders that are reached on it. -/
theorem mem_stops_iff (htree : tree.WellFormed) (hroot : tree.stat l.originals = .ok root)
    {s : Stop} : s ∈ l.stops tree ↔
      Reaches (l.listing tree) root.modified s.rel s.modified ∧
        s.entries = l.listing tree s.rel := by
  have hlisting : ∀ s ∈ l.stops tree, l.listing tree s.rel = s.entries := fun s hs =>
    (entries_of_mem_stops htree hs).symm
  rw [stops_eq hroot] at hlisting ⊢
  constructor
  · intro hs
    exact ⟨(exists_stop_iff_reaches hlisting).1 ⟨s, hs, rfl, rfl⟩, (hlisting s hs).symm⟩
  · rintro ⟨hreach, hentries⟩
    obtain ⟨s', hs', hrel, hmodified⟩ := (exists_stop_iff_reaches hlisting).2 hreach
    have hsame : s' = s := by
      have hentries' := hlisting s' hs'
      rw [hrel, ← hentries] at hentries'
      cases s
      cases s'
      simp_all
    exact hsame ▸ hs'

theorem stops_nodup (htree : tree.WellFormed) :
    (l.stops tree).Pairwise fun s s' => s.rel ≠ s'.rel := by
  unfold stops
  split
  · exact stopsFrom_nodup (fun _ _ h => h) htree (isRow_root _)
  · exact List.Pairwise.nil

theorem names_of_mem_stops (htree : tree.WellFormed) {s : Stop} (hs : s ∈ l.stops tree) :
    ∃ names, (∀ n ∈ names, IsName n) ∧ s.rel = relOf names := by
  unfold stops at hs
  split at hs
  · obtain ⟨names, -, hnames⟩ := names_of_mem_stopsFrom (fun _ _ h => h) htree (isRow_root _) hs
    exact ⟨names, hnames⟩
  · cases hs

/-- A root of which something can be told is the first stop. -/
theorem head?_stops (l : Loader) (tree : FileTree) :
    ((l.stops tree).map Stop.folder).head? =
      (tree.stat l.originals).toOption.map fun root => ("", root.modified) := by
  unfold stops
  cases tree.stat l.originals with
  | error cause => rfl
  | ok root => rw [map_folder_stopsFrom]; rfl

theorem stat_eq_ok_iff : (∃ root, tree.stat l.originals = .ok root) ↔ l.stops tree ≠ [] := by
  have hhead := head?_stops l tree
  cases hstat : tree.stat l.originals with
  | error cause => simpa [hstat, Except.toOption] using hhead
  | ok root =>
    simp only [Except.ok.injEq, exists_eq', true_iff]
    intro hnil
    rw [hstat, hnil] at hhead
    cases hhead

end Loader

/-! ### Times -/

namespace FileTimes

theorem get?_recordOne (t : FileTimes) (rel other : String) (time : Instant) :
    (t.recordOne rel time).get? other = if rel = other then some time else t.get? other := by
  simp [recordOne, get?, Std.TreeMap.getElem?_insert]

theorem get?_record_of_ne {parent rel : String} {entries : List Entry} (t : FileTimes)
    (hrel : ∀ e ∈ entries, joinRel parent e.name ≠ rel) :
    (t.record parent entries).get? rel = t.get? rel := by
  induction entries generalizing t with
  | nil => rfl
  | cons e entries ih =>
    have hrest := ih (t.recordOne (joinRel parent e.name) e.modified)
      fun e' he' => hrel e' (List.mem_cons_of_mem _ he')
    rw [get?_recordOne, if_neg (hrel e List.mem_cons_self)] at hrest
    exact hrest

/-- After a listing has been recorded, the time of each of its entries is the one that it shows. -/
theorem get?_record_of_mem {parent : String} {entries : List Entry} (t : FileTimes)
    (hnames : (entries.map Entry.name).Nodup) {e : Entry} (he : e ∈ entries) :
    (t.record parent entries).get? (joinRel parent e.name) = some e.modified := by
  induction entries generalizing t with
  | nil => cases he
  | cons first entries ih =>
    obtain ⟨hfirst, hnames⟩ := List.nodup_cons.1 hnames
    rcases List.mem_cons.1 he with rfl | he
    · have hlater : ∀ e' ∈ entries, joinRel parent e'.name ≠ joinRel parent e.name :=
        fun e' he' hsame => hfirst (List.mem_map.2 ⟨e', he', joinRel_inj hsame⟩)
      exact (get?_record_of_ne _ hlater).trans (by rw [get?_recordOne, if_pos rfl])
    · exact ih _ hnames he

end FileTimes

end AlbumIndex
