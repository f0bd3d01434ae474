import AlbumIndex.Proofs.Disk.Mirror
import AlbumIndex.Proofs.Load.Stops

/-!
# The turns of a load

At each stop that can be listed it is a folder's turn: its snapshot is read from the disk as it is
at that time, taken anew if it is stale, kept if that is asked for, and made into an album.  What is
kept is on the disk when the next stop is listed.  The time that a snapshot is compared with is the
one that the listing around the folder has shown, and it is always found: no other folder has the
same path.

So a load is the row of its stops, each of them visited in turn.  It fails only if the calendar lacks
a time or an album cannot be made; otherwise everything that comes out of it is told turn by turn.

## Main definitions

* `Turn` — a listed folder and the disk when its turn comes.
* `Turn.isStale`, `Turn.refreshed`, `Turn.album` — what becomes of it.
* `Loader.visit` — a load with one stop more.
* `Loader.stopsOn` — the stops of a load, each listed as the load has left the disk so far.
* `Loader.turns`, `Loader.treeAfter` — the turns of a row of stops, and the disk after them.

## Main results

* `Loader.walk_eq_foldlM` — **a walk is one visit after the other**, no time missing.
* `Loader.foldlM_visit_eq_ok_iff` — **when a load succeeds, and what comes out of it.**
* `Loader.load_eq_ok_iff` — the same for the load of a collection.
-/

namespace AlbumIndex

open Calendar Disk

/-- A listed folder and the disk when its turn comes. -/
structure Turn where
  rel : String
  /-- When it was changed, as seen in the listing of the folder around it. -/
  modified : Instant
  entries : List Entry
  tree : FileTree

namespace Turn

variable (t : Turn) (l : Loader) (opts : LoadOptions)

/-- The snapshot that is found. -/
def found : Snapshot := l.store.read t.tree t.rel

/-- The snapshot that is found has to be taken anew. -/
def isStale : Bool := (t.found l).isStale t.modified.round || opts.force

/-- The snapshot that is taken anew or left as found, and the files looked into for it. -/
def refreshed : Refreshed :=
  (l.upToDate opts.force t.rel t.modified.round t.entries (t.found l)).1

def snapshot : Snapshot := (t.refreshed l opts).snapshot

def calls : List FilePath := (t.refreshed l opts).calls

/-- The album, if the calendar has the times of the entries and room for the date of the folder. -/
def album : Except OutOfRange Album := do
  t.entries.forM fun e => e.modified.ensureInRange
  (t.snapshot l opts).materialize t.rel l.offset

/-- The disk after the turn, with some way to keep the snapshot. -/
def treeWith (keep : Loader.Keeping) : FileTree :=
  if t.isStale l opts && opts.updateDisk then keep t.rel (t.snapshot l opts) t.tree else t.tree

/-- The disk after the turn. -/
def treeAfter : FileTree := t.treeWith l opts l.keep

variable {t l opts}

theorem upToDate_eq (t : Turn) (l : Loader) (opts : LoadOptions) :
    l.upToDate opts.force t.rel t.modified.round t.entries (t.found l) =
      (t.refreshed l opts, t.isStale l opts) := by
  unfold refreshed isStale Loader.upToDate
  split
  · next h => rw [h]
  · next h => rw [Bool.eq_false_iff.2 h]

/-- A snapshot that is taken anew bears the time of the folder. -/
theorem stamp_snapshot (h : t.isStale l opts = true) :
    (t.snapshot l opts).stamp = some t.modified.round.toMillis := by
  unfold isStale at h
  rw [snapshot, refreshed, Loader.upToDate, if_pos h]

/-- Where the snapshot is not stale, everything stays as it is, and no file is looked into. -/
theorem refreshed_of_fresh (h : t.isStale l opts = false) :
    t.refreshed l opts = ⟨t.found l, []⟩ := by
  unfold isStale at h
  rw [refreshed, Loader.upToDate, if_neg (by rw [h]; exact Bool.false_ne_true)]

theorem treeAfter_of_fresh (h : t.isStale l opts = false) : t.treeAfter l opts = t.tree := by
  rw [treeAfter, treeWith, h]
  rfl

end Turn

/-! ### Visits -/

/-- The request for a folder of a known time. -/
def requestFor (folder : String × Instant) : FolderRequest := ⟨folder.1, some folder.2⟩

theorem FileTimes.requests_record (t : FileTimes) (rel : String) {entries : List Entry}
    (hnames : (entries.map Entry.name).Nodup) :
    (t.record rel entries).requests rel entries =
      (Stop.below ⟨rel, .epoch, some entries⟩).map requestFor := by
  have hsubfolders : subfolderNames entries = (entries.filter Entry.isSubfolder).map Entry.name := rfl
  rw [requests, hsubfolders, Stop.below, Option.getD_some, List.map_map, List.map_map]
  refine List.map_congr_left fun e he => ?_
  simp only [Function.comp_apply, requestFor,
    get?_record_of_mem t hnames (List.mem_filter.1 he).1]

namespace Loader

variable (keep : Keeping) (l : Loader) (opts : LoadOptions)

/-- The disk after a stop, with some way to keep snapshots. -/
def afterStop (tree : FileTree) (s : Stop) : FileTree :=
  match s.entries with
  | none => tree
  | some entries => Turn.treeWith ⟨s.rel, s.modified, entries, tree⟩ l opts keep

/-- A load with one stop more, with some way to keep snapshots. -/
def visitWith (p : Progress) (s : Stop) : Except OutOfRange Progress :=
  match s.entries with
  | none => .ok p.fail
  | some entries => do
    let f ← l.loadFolder opts.force s.rel s.modified.round entries (l.store.read p.tree s.rel)
    return takeIn keep opts s.rel entries f p

/-- A load with one stop more. -/
def visit : Progress → Stop → Except OutOfRange Progress := visitWith l.keep l opts

/-- A load after a turn in which an album was made. -/
def progressWith (p : Progress) (t : Turn) (album : Album) : Progress :=
  { tree := t.treeWith l opts keep
    times := p.times.record t.rel t.entries
    albums := p.albums ++ [album]
    rebuilt := if t.isStale l opts then p.rebuilt + 1 else p.rebuilt
    failed := p.failed
    calls := p.calls ++ t.calls l opts }

variable {keep l opts}

/-- A visit to a listed folder is its turn: it succeeds if the album can be made. -/
theorem visitWith_of_listed (p : Progress) (rel : String) (modified : Instant)
    (entries : List Entry) :
    l.visitWith keep opts p ⟨rel, modified, some entries⟩ =
      (Turn.album ⟨rel, modified, entries, p.tree⟩ l opts).map
        (l.progressWith keep opts p ⟨rel, modified, entries, p.tree⟩) := by
  have hupToDate := Turn.upToDate_eq ⟨rel, modified, entries, p.tree⟩ l opts
  simp only [Turn.found] at hupToDate
  simp only [visitWith, loadFolder, hupToDate, Turn.album, Turn.snapshot]
  cases entries.forM fun e => e.modified.ensureInRange with
  | error e => rfl
  | ok =>
    cases ((Turn.refreshed ⟨rel, modified, entries, p.tree⟩ l opts).snapshot.materialize rel
      l.offset) <;> rfl

/-- A visit leaves the disk that the next stop is listed on. -/
theorem tree_visitWith {p q : Progress} {s : Stop} (h : l.visitWith keep opts p s = .ok q) :
    q.tree = l.afterStop keep opts p.tree s := by
  obtain ⟨rel, modified, entries⟩ := s
  cases entries with
  | none => cases h; rfl
  | some entries =>
    rw [visitWith_of_listed] at h
    cases halbum : Turn.album ⟨rel, modified, entries, p.tree⟩ l opts with
    | error e => rw [halbum] at h; cases h
    | ok album => rw [halbum] at h; cases h; rfl

theorem tree_foldlM_visitWith {stops : List Stop} {p q : Progress}
    (h : stops.foldlM (l.visitWith keep opts) p = .ok q) :
    q.tree = stops.foldl (l.afterStop keep opts) p.tree := by
  induction stops generalizing p with
  | nil => cases h; rfl
  | cons s stops ih =>
    rw [List.foldlM_cons] at h
    cases hvisit : l.visitWith keep opts p s with
    | error e => rw [hvisit] at h; cases h
    | ok p' =>
      rw [hvisit] at h
      rw [ih h, tree_visitWith hvisit, List.foldl_cons]

theorem wellFormed_afterStop (hkeep : ∀ rel snapshot t, t.WellFormed → (keep rel snapshot t).WellFormed)
    (tree : FileTree) (s : Stop) (htree : tree.WellFormed) :
    (l.afterStop keep opts tree s).WellFormed := by
  unfold afterStop
  split
  · exact htree
  · unfold Turn.treeWith
    split
    · exact hkeep _ _ _ htree
    · exact htree

/-! ### One visit after the other -/

/-- A request is seen to by a visit, and what follows are requests for the folders below. -/
theorem see_eq {p : Progress} (htree : p.tree.WellFormed) (folder : String × Instant) :
    l.see keep opts p (requestFor folder) =
      (l.visitWith keep opts p (l.stopAt p.tree folder)).map
        fun q => (q, (l.stopAt p.tree folder).below.map requestFor) := by
  cases hlist : p.tree.list (folderPath l.originals folder.1) with
  | error cause => simp only [see, requestFor, stopAt, listing, hlist]; rfl
  | ok entries =>
    simp only [see, requestFor, stopAt, listing, hlist, visitWith, Except.toOption]
    cases l.loadFolder opts.force folder.1 folder.2.round entries (l.store.read p.tree folder.1) with
    | error e => rfl
    | ok f =>
      have hrequests := FileTimes.requests_record p.times folder.1 (htree.list hlist).1
      exact congrArg (fun below => Except.ok (takeIn keep opts folder.1 entries f p, below)) hrequests

/-- A row of requests is seen to by visits, one after the other. -/
theorem seeRow_eq (hkeep : ∀ rel snapshot t, t.WellFormed → (keep rel snapshot t).WellFormed)
    {p : Progress} (htree : p.tree.WellFormed) (folders : List (String × Instant)) :
    l.seeRow keep opts (folders.map requestFor) p =
      ((l.row (l.afterStop keep opts) p.tree folders).foldlM (l.visitWith keep opts) p).map
        fun q => (q, ((l.row (l.afterStop keep opts) p.tree folders).flatMap Stop.below).map
          requestFor) := by
  induction folders generalizing p with
  | nil => rfl
  | cons folder folders ih =>
    rw [List.map_cons, seeRow, see_eq htree, row, List.foldlM_cons, List.flatMap_cons, List.map_append]
    cases hvisit : l.visitWith keep opts p (l.stopAt p.tree folder) with
    | error e => rfl
    | ok q =>
      have hq := tree_visitWith hvisit
      have hrest := ih (p := q) (by rw [hq]; exact wellFormed_afterStop hkeep _ _ htree)
      rw [hq] at hrest
      simp only [Except.map, bind, Except.bind, hrest]
      cases (l.row (l.afterStop keep opts) (l.afterStop keep opts p.tree (l.stopAt p.tree folder))
        folders).foldlM (l.visitWith keep opts) q <;> rfl

theorem foldlM_visitWith_of_unlistable (folders : List (String × Instant)) (p : Progress) :
    (folders.map fun folder => (⟨folder.1, folder.2, none⟩ : Stop)).foldlM (l.visitWith keep opts) p =
      .ok ((folders.map requestFor).foldl (fun p _ => p.fail) p) := by
  induction folders generalizing p with
  | nil => rfl
  | cons folder folders ih => exact ih p.fail

/-- **A walk is one visit after the other**, in the order of the stops.  The time of every folder is
found where it is looked up. -/
theorem walk_eq_foldlM (hkeep : ∀ rel snapshot t, t.WellFormed → (keep rel snapshot t).WellFormed)
    (depth : Nat) {p : Progress} (htree : p.tree.WellFormed) (folders : List (String × Instant)) :
    l.walk keep opts depth (folders.map requestFor) p =
      (l.stopsFrom (l.afterStop keep opts) depth p.tree folders).foldlM (l.visitWith keep opts) p := by
  induction depth generalizing folders p with
  | zero =>
    rw [stopsFrom_zero, foldlM_visitWith_of_unlistable]
    cases folders <;> rfl
  | succ depth ih =>
    cases folders with
    | nil => rfl
    | cons folder folders =>
      rw [List.map_cons, walk, ← List.map_cons, seeRow_eq hkeep htree, stopsFrom_succ,
        List.foldlM_append]
      · cases hrow : (l.row (l.afterStop keep opts) p.tree (folder :: folders)).foldlM
            (l.visitWith keep opts) p with
        | error e => rfl
        | ok q =>
          have hq := tree_foldlM_visitWith hrow
          have hrest := ih (p := q)
            (by rw [hq]; exact wellFormed_foldl (wellFormed_afterStop hkeep) htree _)
            ((l.row (l.afterStop keep opts) p.tree (folder :: folders)).flatMap Stop.below)
          rw [hq] at hrest
          exact hrest
      · simp

/-- The stops of a load with some way to keep snapshots. -/
def stopsWith (keep : Keeping) (l : Loader) (opts : LoadOptions) (tree : FileTree) : List Stop :=
  match tree.stat l.originals with
  | .ok root => l.stopsFrom (l.afterStop keep opts) maxFolders tree [("", root.modified)]
  | .error _ => []

/-- The stops of a load; each lists the disk as the load has left it so far. -/
def stopsOn (l : Loader) (opts : LoadOptions) (tree : FileTree) : List Stop :=
  l.stopsWith l.keep opts tree

/-- **The load of a collection**: the visits of its stops, and the albums put in order. -/
theorem loadWith_eq (opts : LoadOptions) {tree : FileTree}
    (hkeep : ∀ rel snapshot t, t.WellFormed → (keep rel snapshot t).WellFormed)
    (htree : tree.WellFormed) {root : FileNode} (hroot : tree.stat l.originals = .ok root) :
    l.loadWith keep opts tree = outcome (root.modified.ensureInRange >>= fun _ =>
      (l.stopsWith keep opts tree).foldlM (l.visitWith keep opts) (begin tree root.modified)) := by
  have htime : (begin tree root.modified).times.get? "" = some root.modified := by
    rw [begin, FileTimes.get?_recordOne, if_pos rfl]
  have hwalk : l.walk keep opts maxFolders [⟨"", some root.modified⟩] (begin tree root.modified) = _ :=
    walk_eq_foldlM hkeep maxFolders htree [("", root.modified)]
  have hstops : l.stopsWith keep opts tree =
      l.stopsFrom (l.afterStop keep opts) maxFolders tree [("", root.modified)] := by
    rw [stopsWith, hroot]
  simp only [loadWith, hroot, walkFrom, htime, hstops]
  exact congrArg (fun walk => outcome (root.modified.ensureInRange >>= fun _ => walk)) hwalk

/-! ### Turns -/

variable (l opts)

/-- The turns of a row of stops, beginning with the given disk. -/
def turns : FileTree → List Stop → List Turn
  | _, [] => []
  | tree, s :: stops =>
    match s.entries with
    | none => turns tree stops
    | some entries =>
      let t : Turn := ⟨s.rel, s.modified, entries, tree⟩
      t :: turns (t.treeAfter l opts) stops

/-- The disk after a row of stops. -/
def treeAfter (tree : FileTree) (stops : List Stop) : FileTree :=
  stops.foldl (l.afterStop l.keep opts) tree

/-- The times noted after a row of stops. -/
def timesAfter (times : FileTimes) (stops : List Stop) : FileTimes :=
  stops.foldl (fun times s => times.record s.rel (s.entries.getD [])) times

variable {l opts}

/-- The turns are those of the stops that can be listed, in their order. -/
theorem map_turns (l : Loader) (opts : LoadOptions) (tree : FileTree) (stops : List Stop) :
    (l.turns opts tree stops).map (fun t => (⟨t.rel, t.modified, some t.entries⟩ : Stop)) =
      stops.filter fun s => s.entries.isSome := by
  induction stops generalizing tree with
  | nil => rfl
  | cons s stops ih =>
    obtain ⟨rel, modified, entries⟩ := s
    cases entries with
    | none => simpa [turns] using ih tree
    | some entries => simp [turns, ih]

/-- A stop that is listed has its turn. -/
theorem exists_turn_of_listed (l : Loader) (opts : LoadOptions) (tree : FileTree) {stops : List Stop}
    {s : Stop} (hs : s ∈ stops) (hlisted : s.entries.isSome = true) :
    ∃ t ∈ l.turns opts tree stops, t.rel = s.rel := by
  have hmem : s ∈ stops.filter fun s => s.entries.isSome := List.mem_filter.2 ⟨hs, hlisted⟩
  rw [← map_turns l opts tree] at hmem
  obtain ⟨t, ht, rfl⟩ := List.mem_map.1 hmem
  exact ⟨t, ht, rfl⟩

/-- A turn of a folder is a stop at it. -/
theorem mem_stops_of_mem_turns {tree : FileTree} {stops : List Stop} {t : Turn}
    (ht : t ∈ l.turns opts tree stops) : ⟨t.rel, t.modified, some t.entries⟩ ∈ stops := by
  have hmap := List.mem_map_of_mem (f := fun t : Turn => (⟨t.rel, t.modified, some t.entries⟩ : Stop))
    ht
  rw [map_turns] at hmap
  exact (List.mem_filter.1 hmap).1

theorem visit_of_unlistable {rel : String} {modified : Instant} (p : Progress) :
    l.visit opts p ⟨rel, modified, none⟩ = .ok p.fail := rfl

theorem visit_of_listed (p : Progress) (rel : String) (modified : Instant) (entries : List Entry) :
    l.visit opts p ⟨rel, modified, some entries⟩ =
      (Turn.album ⟨rel, modified, entries, p.tree⟩ l opts).map
        (l.progressWith l.keep opts p ⟨rel, modified, entries, p.tree⟩) :=
  visitWith_of_listed p rel modified entries

/-- What comes out of the turns of a row of stops whose albums are these. -/
def progressAfter (l : Loader) (opts : LoadOptions) (p : Progress) (stops : List Stop)
    (albums : List Album) : Progress :=
  { tree := l.treeAfter opts p.tree stops
    times := timesAfter p.times stops
    albums := p.albums ++ albums
    rebuilt := p.rebuilt + (l.turns opts p.tree stops).countP fun t => t.isStale l opts
    failed := p.failed + stops.countP fun s => s.entries.isNone
    calls := p.calls ++ (l.turns opts p.tree stops).flatMap fun t => t.calls l opts }

theorem progressAfter_unlistable (p : Progress) (rel : String) (modified : Instant)
    (stops : List Stop) (albums : List Album) :
    l.progressAfter opts p (⟨rel, modified, none⟩ :: stops) albums =
      l.progressAfter opts p.fail stops albums := by
  simp only [progressAfter, Progress.fail, treeAfter, afterStop, turns, timesAfter, List.foldl_cons,
    Option.getD_none, FileTimes.record, List.foldl_nil, List.countP_cons, Option.isNone_none,
    ↓reduceIte, Progress.mk.injEq, true_and, and_true]
  omega

theorem progressAfter_listed (p : Progress) (rel : String) (modified : Instant)
    (entries : List Entry) (stops : List Stop) (album : Album) (albums : List Album) :
    l.progressAfter opts p (⟨rel, modified, some entries⟩ :: stops) (album :: albums) =
      l.progressAfter opts (l.progressWith l.keep opts p ⟨rel, modified, entries, p.tree⟩ album) stops
        albums := by
  simp only [progressAfter, progressWith, treeAfter, Turn.treeAfter, afterStop, turns, timesAfter,
    List.foldl_cons,
    Option.getD_some, List.countP_cons, Option.isNone_some, Bool.false_eq_true, ↓reduceIte,
    List.flatMap_cons, List.append_assoc, List.singleton_append, Nat.add_zero, Progress.mk.injEq,
    true_and, and_true]
  split <;> omega

/-- **A load succeeds if the album of each turn can be made**; everything else that comes out of it
is told turn by turn. -/
theorem foldlM_visit_eq_ok_iff {stops : List Stop} {p p' : Progress} :
    stops.foldlM (l.visit opts) p = .ok p' ↔
      ∃ albums, (l.turns opts p.tree stops).map (fun t => t.album l opts) = albums.map .ok ∧
        p' = l.progressAfter opts p stops albums := by
  induction stops generalizing p with
  | nil =>
    constructor
    · intro h
      cases h
      exact ⟨[], rfl, by simp [progressAfter, treeAfter, timesAfter, turns]⟩
    · rintro ⟨albums, halbums, rfl⟩
      obtain rfl : albums = [] := by simpa [turns] using halbums.symm
      simp [progressAfter, treeAfter, timesAfter, turns, pure, Except.pure]
  | cons s stops ih =>
    obtain ⟨rel, modified, entries⟩ := s
    rw [List.foldlM_cons]
    cases entries with
    | none =>
      rw [visit_of_unlistable]
      simp only [progressAfter_unlistable]
      exact ih
    | some entries =>
      rw [visit_of_listed]
      have hturns : l.turns opts p.tree (⟨rel, modified, some entries⟩ :: stops) =
          ⟨rel, modified, entries, p.tree⟩ ::
            l.turns opts (Turn.treeAfter ⟨rel, modified, entries, p.tree⟩ l opts) stops := rfl
      rw [hturns, List.map_cons]
      cases halbum : Turn.album ⟨rel, modified, entries, p.tree⟩ l opts with
      | error e =>
        constructor
        · intro h
          cases h
        · rintro ⟨albums, halbums, -⟩
          cases albums <;> cases halbums
      | ok album =>
        have hrest := ih (p := l.progressWith l.keep opts p ⟨rel, modified, entries, p.tree⟩ album)
        refine hrest.trans ⟨?_, ?_⟩
        · rintro ⟨albums, halbums, rfl⟩
          refine ⟨album :: albums, ?_, (progressAfter_listed ..).symm⟩
          rw [List.map_cons]
          exact congrArg (_ :: ·) halbums
        · rintro ⟨albums, halbums, rfl⟩
          cases albums with
          | nil => cases halbums
          | cons first albums =>
            obtain ⟨hfirst, hothers⟩ := List.cons.inj halbums
            obtain rfl := Except.ok.inj hfirst
            exact ⟨albums, hothers, progressAfter_listed ..⟩

/-- The turns of the load of a collection. -/
def turnsOf (l : Loader) (opts : LoadOptions) (tree : FileTree) : List Turn :=
  l.turns opts tree (l.stopsOn opts tree)

theorem wellFormed_keep (l : Loader) (rel : String) (snapshot : Snapshot) (t : FileTree)
    (ht : t.WellFormed) : (l.keep rel snapshot t).WellFormed :=
  SnapshotStore.wellFormed_write ht l.store rel snapshot

theorem exists_stat_of_load {tree : FileTree} {loaded : Loaded}
    (hload : l.load opts tree = .ok loaded) : ∃ root, tree.stat l.originals = .ok root := by
  unfold load loadWith at hload
  split at hload
  · cases hload
  · next root hroot => exact ⟨root, hroot⟩

/-- The load of a collection of which something can be told: the visits of its stops. -/
theorem load_eq (l : Loader) (opts : LoadOptions) {tree : FileTree} (htree : tree.WellFormed)
    {root : FileNode} (hroot : tree.stat l.originals = .ok root) :
    l.load opts tree = outcome (root.modified.ensureInRange >>= fun _ =>
      (l.stopsOn opts tree).foldlM (l.visit opts) (begin tree root.modified)) :=
  loadWith_eq opts l.wellFormed_keep htree hroot

theorem outcome_eq_ok_iff {walk : Except OutOfRange Progress} {loaded : Loaded} :
    outcome walk = .ok loaded ↔ ∃ p, walk = .ok p ∧ loaded = p.loaded := by
  cases walk with
  | error e => simp [outcome]
  | ok p => simp [outcome, eq_comm]

theorem outcome_map (walk : Except OutOfRange Progress) (tree : FileTree) :
    outcome (walk.map fun p => { p with tree }) =
      (outcome walk).map fun loaded => { loaded with tree } := by
  cases walk <;> rfl

theorem ensureInRange_bind_eq_ok_iff {α : Type} {t : Instant} {rest : Except OutOfRange α} {a : α} :
    (t.ensureInRange >>= fun _ => rest) = .ok a ↔ Instant.InRange t.seconds ∧ rest = .ok a := by
  unfold Instant.ensureInRange
  by_cases h : Instant.InRange t.seconds
  · simp only [h, ↓reduceIte, true_and]
    rfl
  · simp only [h, ↓reduceIte, false_and, iff_false]
    exact nofun

/-- **The load of a collection** of which something can be told succeeds if the calendar has the time
of the root and the album of each turn can be made. -/
theorem load_eq_ok_iff {tree : FileTree} (htree : tree.WellFormed) {root : FileNode}
    (hroot : tree.stat l.originals = .ok root) {loaded : Loaded} :
    l.load opts tree = .ok loaded ↔ Instant.InRange root.modified.seconds ∧
      ∃ albums, (l.turnsOf opts tree).map (fun t => t.album l opts) = albums.map .ok ∧
        loaded =
          (l.progressAfter opts (begin tree root.modified) (l.stopsOn opts tree) albums).loaded := by
  rw [load_eq l opts htree hroot, outcome_eq_ok_iff]
  simp only [ensureInRange_bind_eq_ok_iff, foldlM_visit_eq_ok_iff, and_assoc, exists_and_left]
  refine and_congr_right fun _ => ⟨?_, ?_⟩
  · rintro ⟨_, ⟨albums, halbums, rfl⟩, rfl⟩
    exact ⟨albums, halbums, rfl⟩
  · rintro ⟨albums, halbums, rfl⟩
    exact ⟨_, ⟨albums, halbums, rfl⟩, rfl⟩

end Loader
end AlbumIndex
