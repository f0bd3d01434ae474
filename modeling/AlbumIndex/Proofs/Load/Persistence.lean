import AlbumIndex.Proofs.Disk.Work
import AlbumIndex.Proofs.Load.Shared

/-!
# Keeping snapshots is not seen

A load may keep the snapshots that it takes anew, and while it does so it goes on listing folders and
reading the snapshots of other ones on the same disk.  Writing can fail at any point and leave half of
its work behind.  None of this is seen in what the load gives, if the collection lies beside its
snapshots and there are no links below their root: the folders are listed as they were, no folder's
snapshot is read through the work on another one, and each folder's own is read before it is written.
So the albums, the numbers and the files looked into are those of a load that keeps nothing.

## Main definitions

* `Loader.Stale` — the paths of the folders whose snapshots are taken anew.

## Main results

* `Loader.answer_of_work` — no answer to a request depends on work for other paths.
* `Loader.foldlM_visitWith`, `Loader.exists_loadWith_eq` — what a row of visits and a load give,
  whatever keeping comes to.
* `Loader.load_keeping` — **what a load gives does not depend on what it keeps.**
-/

namespace AlbumIndex

open Calendar Disk

namespace Loader

variable {l : Loader} {opts : LoadOptions} {tree tree' : FileTree} {keep : Keeping}

/-! ### Folders and the work for others -/

/-- An answer depends on the listing of the folder and on the snapshot that is found. -/
theorem answer_congr {r : FolderRequest} {force : Bool}
    (hlisting : l.listing tree' r.rel = l.listing tree r.rel)
    (hread : l.store.read tree' r.rel = l.store.read tree r.rel) :
    l.answer force tree' r = l.answer force tree r := by
  unfold listing at hlisting
  unfold answer
  rw [hread]
  cases hlist : tree.list (folderPath l.originals r.rel) <;>
    cases hlist' : tree'.list (folderPath l.originals r.rel) <;>
    rw [hlist, hlist'] at hlisting <;> cases hlisting <;> cases r.modified <;> rfl

/-- **No answer to a request depends on work for other paths**, whenever it is done. -/
theorem answer_of_work {paths : String → Prop} (h : l.store.Work paths tree tree')
    (hpaths : ∀ rel, paths rel → SnapshotStore.IsRel rel) (htree : tree.WellFormed)
    (hclosed : tree.Closed) (hunlinked : l.store.Unlinked tree) (hsteady : l.store.Steady tree)
    (hbeside : l.Beside tree) {r : FolderRequest} (hrel : SnapshotStore.IsRel r.rel)
    (hother : ¬ paths r.rel) (force : Bool) : l.answer force tree' r = l.answer force tree r := by
  have hread := h.read_eq hpaths hclosed hunlinked hsteady hrel hother
  obtain ⟨names, hnames, hrel⟩ := hrel
  refine answer_congr ?_ hread
  rw [hrel]
  exact (hbeside.looksSame htree (h.mono hpaths)).listing_eq hnames

/-- The paths of the folders among the stops whose snapshots on the disk are stale. -/
def Stale (l : Loader) (opts : LoadOptions) (tree : FileTree) (stops : List Stop) (rel : String) :
    Prop :=
  ∃ s ∈ stops, s.rel = rel ∧ ∃ entries, s.entries = some entries ∧
    Turn.isStale ⟨s.rel, s.modified, entries, tree⟩ l opts = true

theorem Stale.cons {s : Stop} {stops : List Stop} {rel : String} (h : l.Stale opts tree stops rel) :
    l.Stale opts tree (s :: stops) rel :=
  h.imp fun _ h => ⟨List.mem_cons_of_mem _ h.1, h.2⟩

/-- A folder that was taken anew was stale. -/
theorem isStale_of_loadFolder (opts : LoadOptions) {s : Stop} {entries : List Entry} {f : FolderLoad}
    (h : l.loadFolder opts.force s.rel s.modified.round entries (l.store.read tree s.rel) = .ok f) :
    f.rebuilt = Turn.isStale ⟨s.rel, s.modified, entries, tree⟩ l opts := by
  have hupToDate := Turn.upToDate_eq ⟨s.rel, s.modified, entries, tree⟩ l opts
  simp only [Turn.found] at hupToDate
  unfold loadFolder at h
  rw [hupToDate] at h
  cases htimes : entries.forM fun e => e.modified.ensureInRange with
  | error e => rw [htimes] at h; cases h
  | ok =>
    rw [htimes] at h
    cases halbum : (Turn.refreshed ⟨s.rel, s.modified, entries, tree⟩ l opts).snapshot.materialize
        s.rel l.offset with
    | error e => simp [halbum, bind, Except.bind] at h
    | ok album =>
      simp only [halbum, bind, Except.bind, pure, Except.pure, Except.ok.injEq] at h
      rw [← h]

/-- What is kept of a folder is work for its path, and is done only if the folder was stale. -/
theorem IsWork.takeIn {paths : String → Prop} {p : Progress} (hkeep : l.IsWork keep)
    (hwork : l.store.Work paths tree p.tree) (opts : LoadOptions) (rel : String)
    (entries : List Entry) (f : FolderLoad) :
    l.store.Work (fun r => paths r ∨ r = rel ∧ f.rebuilt = true) tree
      (takeIn keep { opts with updateDisk := true } rel entries f p).tree := by
  have hbefore : l.store.Work (fun r => paths r ∨ r = rel ∧ f.rebuilt = true) tree p.tree :=
    hwork.mono fun _ => Or.inl
  simp only [Loader.takeIn, Bool.and_true]
  split
  · next hrebuilt =>
    exact hbefore.trans ((hkeep rel f.snapshot p.tree).mono fun _ hr => Or.inr ⟨hr, hrebuilt⟩)
  · exact hbefore

/-- But for the disk, a folder is taken in as if nothing were kept. -/
theorem takeIn_of_kept (keep keep' : Keeping) (opts : LoadOptions) (rel : String)
    (entries : List Entry) (f : FolderLoad) (p : Progress) (tree : FileTree) :
    takeIn keep { opts with updateDisk := false } rel entries f { p with tree := tree } =
      { takeIn keep' { opts with updateDisk := true } rel entries f p with tree := tree } := by
  simp only [takeIn, Bool.and_false]
  rfl

/-- **What a row of visits gives, whatever keeping comes to**: everything is as if nothing had been
kept, and the disk has been worked on for stale folders only. -/
theorem foldlM_visitWith (opts : LoadOptions) (hkeep : l.IsWork keep)
    (htree : tree.Closed) (hunlinked : l.store.Unlinked tree) (hsteady : l.store.Steady tree)
    {stops : List Stop} (hrels : ∀ s ∈ stops, SnapshotStore.IsRel s.rel)
    (hdistinct : stops.Pairwise fun s s' => s.rel ≠ s'.rel) {paths : String → Prop}
    (hpaths : ∀ rel, paths rel → SnapshotStore.IsRel rel) (hbefore : ∀ s ∈ stops, ¬ paths s.rel)
    {p : Progress} (hwork : l.store.Work paths tree p.tree) :
    ∃ tree', stops.foldlM (l.visitWith keep { opts with updateDisk := true }) p =
        (stops.foldlM (l.visit { opts with updateDisk := false }) { p with tree := tree }).map
          (fun q => { q with tree := tree' }) ∧
      l.store.Work (fun rel => paths rel ∨ l.Stale opts tree stops rel) tree tree' := by
  induction stops generalizing p paths with
  | nil => exact ⟨p.tree, rfl, hwork.mono fun _ => Or.inl⟩
  | cons s stops ih =>
    obtain ⟨hrel, hrels⟩ := List.forall_mem_cons.1 hrels
    obtain ⟨hfirst, hdistinct⟩ := List.pairwise_cons.1 hdistinct
    obtain ⟨hother, hbefore⟩ := List.forall_mem_cons.1 hbefore
    rw [List.foldlM_cons, List.foldlM_cons]
    cases hentries : s.entries with
    | none =>
      obtain ⟨tree', hfold, hwork'⟩ := ih hrels hdistinct hpaths hbefore (p := p.fail) hwork
      refine ⟨tree', ?_, hwork'.mono fun _ => Or.imp_right Stale.cons⟩
      simp only [visit, visitWith, hentries]
      exact hfold
    | some entries =>
      have hread := hwork.read_eq hpaths htree hunlinked hsteady hrel hother
      simp only [visit, visitWith, hentries, hread]
      cases hload : l.loadFolder opts.force s.rel s.modified.round entries
          (l.store.read tree s.rel) with
      | error e => exact ⟨tree, rfl, .none⟩
      | ok f =>
        have hstale := isStale_of_loadFolder opts hload
        have hpaths' : ∀ rel, (paths rel ∨ rel = s.rel ∧ f.rebuilt = true) →
            SnapshotStore.IsRel rel := fun rel h => h.elim (hpaths rel) fun h => h.1 ▸ hrel
        -- what is kept now is read by no folder that comes later
        obtain ⟨tree', hfold, hwork'⟩ := ih hrels hdistinct hpaths'
          (fun s' hs' h => h.elim (hbefore s' hs') fun h => hfirst s' hs' h.1.symm)
          (hkeep.takeIn hwork opts s.rel entries f)
        refine ⟨tree', ?_, hwork'.mono ?_⟩
        · simp only [bind, Except.bind, pure, Except.pure, takeIn_of_kept l.keep keep]
          exact hfold
        · rintro rel ((hpath | ⟨rfl, hrebuilt⟩) | hrest)
          · exact Or.inl hpath
          · exact Or.inr ⟨s, List.mem_cons_self, rfl, entries, hentries, hstale ▸ hrebuilt⟩
          · exact Or.inr hrest.cons

/-! ### Loads that keep the disk as it is -/

theorem Turn.treeAfter_of_kept (hkept : opts.updateDisk = false) (t : Turn) :
    t.treeAfter l opts = t.tree := by
  rw [Turn.treeAfter, Turn.treeWith, hkept, Bool.and_false]
  rfl

theorem treeAfter_of_kept (hkept : opts.updateDisk = false) (tree : FileTree) (stops : List Stop) :
    l.treeAfter opts tree stops = tree := by
  induction stops with
  | nil => rfl
  | cons s stops ih =>
    have hstop : l.afterStop l.keep opts tree s = tree := by
      unfold afterStop
      split
      · rfl
      · exact Turn.treeAfter_of_kept hkept _
    rw [treeAfter, List.foldl_cons, hstop]
    exact ih

/-- Without keeping, every turn comes with the disk as it was. -/
theorem turns_of_kept (hkept : opts.updateDisk = false) (tree : FileTree) (stops : List Stop) :
    l.turns opts tree stops = stops.filterMap fun s =>
      s.entries.map fun entries => ⟨s.rel, s.modified, entries, tree⟩ := by
  induction stops with
  | nil => rfl
  | cons s stops ih =>
    obtain ⟨rel, modified, entries⟩ := s
    cases entries with
    | none => simpa [turns] using ih
    | some entries => simp [turns, Turn.treeAfter_of_kept hkept, ih]

/-- Stale folders are those with a stale turn. -/
theorem stale_iff (opts : LoadOptions) (hkept : opts.updateDisk = false) {rel : String} :
    l.Stale opts tree (l.stopsOn opts tree) rel ↔
      ∃ t ∈ l.turnsOf opts tree, t.rel = rel ∧ t.isStale l opts = true := by
  simp only [turnsOf, turns_of_kept hkept, List.mem_filterMap, Option.map_eq_some_iff]
  constructor
  · rintro ⟨s, hs, hrel, entries, hentries, hstale⟩
    exact ⟨_, ⟨s, hs, entries, hentries, rfl⟩, hrel, hstale⟩
  · rintro ⟨_, ⟨s, hs, entries, hentries, rfl⟩, hrel, hstale⟩
    exact ⟨s, hs, hrel, entries, hentries, hstale⟩

/-- **A load that keeps its snapshots in some way gives what one gives that keeps nothing**, and has
done work for stale folders only. -/
theorem exists_loadWith_eq (opts : LoadOptions) (hkeep : l.IsWork keep) (htree : tree.WellFormed)
    (hclosed : tree.Closed) (hunlinked : l.store.Unlinked tree) (hsteady : l.store.Steady tree)
    (hbeside : l.Beside tree) :
    ∃ tree', l.loadWith keep { opts with updateDisk := true } tree =
        (l.load { opts with updateDisk := false } tree).map
          (fun loaded => { loaded with tree := tree' }) ∧
      l.store.Work (l.Stale opts tree (l.stops tree)) tree tree' := by
  cases hroot : tree.stat l.originals with
  | error cause =>
    refine ⟨tree, ?_, .none⟩
    simp only [load, loadWith, hroot]
    rfl
  | ok root =>
    have hoff : l.stopsOn { opts with updateDisk := false } tree = l.stops tree :=
      stopsOn_eq_stops htree fun hupdate => by cases hupdate
    have hon : l.stopsWith keep { opts with updateDisk := true } tree = l.stops tree :=
      stopsWith_eq_stops hkeep htree fun _ => hbeside
    have hrels : ∀ s ∈ l.stops tree, SnapshotStore.IsRel s.rel := fun s hs =>
      names_of_mem_stops htree hs
    have hnone : ∀ rel, False → SnapshotStore.IsRel rel := fun _ h => h.elim
    obtain ⟨tree', hfold, hwork⟩ := foldlM_visitWith opts hkeep hclosed hunlinked hsteady hrels
      (stops_nodup htree) hnone (fun _ _ => id) (p := begin tree root.modified) .none
    refine ⟨tree', ?_, hwork.mono fun rel h => h.resolve_left id⟩
    rw [loadWith_eq _ hkeep.wellFormed htree hroot, load_eq l _ htree hroot, hon, hoff, hfold]
    cases root.modified.ensureInRange with
    | error e => rfl
    | ok => exact outcome_map _ _

/-- **What a load gives does not depend on what it keeps.**  The collection lies beside its snapshots,
there are no links below their root, and the root comes to lead to no other old folder.  Then a load
that keeps nothing leaves the disk as it is; and a load that keeps its snapshots gives the same albums
and numbers and looks into the same files, or fails for the same reason, however far the work for each
snapshot gets.  That work touches only what belongs to folders whose snapshots are stale. -/
theorem load_keeping (l : Loader) (opts : LoadOptions) (tree : FileTree) (htree : tree.WellFormed)
    (hclosed : tree.Closed) (hunlinked : l.store.Unlinked tree) (hsteady : l.store.Steady tree)
    (hbeside : l.Beside tree) :
    (∀ loaded, l.load { opts with updateDisk := false } tree = .ok loaded → loaded.tree = tree) ∧
      (l.load { opts with updateDisk := true } tree =
          l.loadWith l.keep { opts with updateDisk := true } tree ∧ l.IsWork l.keep) ∧
      ∀ keep : Keeping, l.IsWork keep →
        ∃ tree', l.loadWith keep { opts with updateDisk := true } tree =
            (l.load { opts with updateDisk := false } tree).map
              (fun loaded => { loaded with tree := tree' }) ∧
          l.store.Worked (fun rel => ∃ t ∈ l.turnsOf { opts with updateDisk := false } tree,
            t.rel = rel ∧ t.isStale l opts = true) tree tree' := by
  refine ⟨fun loaded hload => ?_, ⟨rfl, l.isWork_keep⟩, fun keep hkeep => ?_⟩
  · obtain ⟨root, hroot⟩ := exists_stat_of_load hload
    obtain ⟨-, albums, -, rfl⟩ := (load_eq_ok_iff htree hroot).1 hload
    exact treeAfter_of_kept rfl tree _
  · obtain ⟨tree', hload, hwork⟩ := exists_loadWith_eq opts hkeep htree hclosed hunlinked hsteady hbeside
    refine ⟨tree', hload, (hwork.mono fun rel h => ?_).worked⟩
    have hoff : l.stopsOn { opts with updateDisk := false } tree = l.stops tree :=
      stopsOn_eq_stops htree fun hupdate => by cases hupdate
    rw [← hoff] at h
    exact (stale_iff { opts with updateDisk := false } rfl).1 h

/-- A collection with an image in the folder `a`, and no snapshots yet. -/
def newDisk : FileTree :=
  sampleDisk "a" [([.text "o", .text "a", .text "x.jpg"], .file [] ⟨5, 0⟩)]

/-- Keeping gets as far as the folder for the snapshot. -/
def keepFolder (l : Loader) (rel : String) (_ : Snapshot) (tree : FileTree) : FileTree :=
  (tree.makeFolders (l.store.folder rel)).1

/-- The collection lies beside its snapshots. -/
theorem beside_newDisk : sample.Beside newDisk :=
  beside_of_isPlain [.text "i"] (by decide) (by decide) ⟨_, rfl, rfl⟩ rfl (by decide)
    (by decide)

/-- The first load of a collection looks into its image, whether nothing is kept or keeping fails
after a folder has been made for each snapshot. -/
theorem load_keeping_only_folders :
    ∃ loaded tree', sample.load ⟨false, false, false⟩ newDisk = .ok loaded ∧
      loaded.tree = newDisk ∧ loaded.stats = ⟨2, 1, 2, 0⟩ ∧ loaded.calls = [⟨"o/a/x.jpg"⟩] ∧
      sample.loadWith (keepFolder sample) ⟨true, false, false⟩ newDisk =
        .ok { loaded with tree := tree' } := by
  have hroot : newDisk.locate true sample.store.root = .ok (.missing [.text "i"]) := rfl
  have hunlinked : sample.store.Unlinked newDisk := by
    intro folder time hdot
    obtain ⟨place, node, hfound, -⟩ :=
      FileTree.locate_of_locate_dot true (by decide) hdot
    rw [hroot] at hfound
    cases hfound
  obtain ⟨hoff, -, hon⟩ := load_keeping sample ⟨false, false, false⟩ newDisk (by decide) (by decide)
    hunlinked (SnapshotStore.steady_of_missing hroot) beside_newDisk
  have hcount : (sample.load ⟨false, false, false⟩ newDisk).toOption.map
      (fun loaded => (loaded.stats, loaded.calls)) = some (⟨2, 1, 2, 0⟩, [⟨"o/a/x.jpg"⟩]) := by
    decide +kernel
  cases hload : sample.load ⟨false, false, false⟩ newDisk with
  | error e => rw [hload] at hcount; cases hcount
  | ok loaded =>
    rw [hload] at hcount
    simp only [Except.toOption, Option.map_some, Option.some.injEq, Prod.mk.injEq] at hcount
    obtain ⟨tree', hkeeping, -⟩ := hon (keepFolder sample) fun rel _ t =>
      FileTree.makeFolders_induction .none fun haround hmade h =>
        h.more rfl (.folder haround hmade)
    rw [hload] at hkeeping
    exact ⟨loaded, tree', rfl, hoff loaded hload, hcount.1, hcount.2, hkeeping⟩

/-- The folder for the snapshot of `a` is another name for the folder of all snapshots, and nothing
has been changed in `a` of late. -/
def sharedDisk : FileTree :=
  { nodes := [([], .folder .epoch), ([.text "o"], .folder ⟨20, 0⟩),
      ([.text "o", .text "a"], .folder ⟨10, 0⟩), ([.text "i"], .folder .epoch),
      ([.text "i", .text "a"], .link ⟨"."⟩)]
    current := []
    clock := .epoch }

/-- An old folder of snapshots, with one for the folder `a`. -/
def oldDisk : FileTree :=
  sampleDisk "a" [([.text "i"], .folder .epoch), ([.text "i", .text "a"], .folder .epoch),
    ([.text "i", .text "a", .text "index.bin"],
      .file (Snapshot.encode { Snapshot.empty with stamp := some 30000 }) .epoch)]

/-- The root of the snapshots leads to the old folder as soon as there is a folder `n`. -/
def returning : Loader := { sample with store := ⟨⟨"n/../i"⟩⟩ }

/-- Keeping snapshots is seen where a link gives two folders one snapshot, and where a folder that is
made on the way to the root of the snapshots lets it lead to those of old.  A load that keeps
nothing takes both folders anew, a load that keeps its snapshots only one of them. -/
theorem keeping_seen :
    (sharedDisk.WellFormed ∧ sharedDisk.Closed ∧
      (sample.load ⟨false, false, false⟩ sharedDisk).toOption.map Loaded.stats = some ⟨2, 0, 2, 0⟩ ∧
      (sample.load ⟨true, false, false⟩ sharedDisk).toOption.map Loaded.stats =
        some ⟨2, 0, 1, 0⟩) ∧
    oldDisk.WellFormed ∧ oldDisk.Closed ∧
      (returning.load ⟨false, false, false⟩ oldDisk).toOption.map Loaded.stats = some ⟨2, 0, 2, 0⟩ ∧
      (returning.load ⟨true, false, false⟩ oldDisk).toOption.map Loaded.stats =
        some ⟨2, 0, 1, 0⟩ := by
  refine ⟨⟨by decide, by decide, ?_, ?_⟩, by decide, ?_, ?_, ?_⟩ <;> decide +kernel

end Loader
end AlbumIndex
