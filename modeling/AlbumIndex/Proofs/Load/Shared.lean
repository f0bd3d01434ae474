import AlbumIndex.Proofs.Load.Schedules

/-!
# Shared loads

The requests of a load make a tree: from a folder follow requests for its subfolders, each with the
time that the listing shows.  So whatever is known of crews holds of the crew of a load.  The
requests are for the stops of the walk that loads one folder after the other, and where the disk
stays as it is, a folder comes to the same whoever sees to it and when.  What the crew brings home is
then what the walk gives.

## Main definitions

* `Loader.requests` — the requests for the stops of a walk.
* `Loader.look` — what a stop comes to on a given disk.

## Main results

* `Loader.requestTree_answer` — **the requests of a load make a tree.**
* `Loader.foldlM_visit_of_kept` — what comes out of a walk that keeps the disk as it is.
* `Loader.onCourse_load` — **a crew brings home what the walk gives.**
-/

namespace AlbumIndex

open Calendar Disk

variable {l : Loader} {opts : LoadOptions} {force : Bool} {tree : FileTree}

/-! ### The requests of a load -/

namespace Loader

/-- What has an answer: a listed folder of a known time whose album can be made. -/
theorem answer_eq_some_iff {r : FolderRequest} {found : Found FolderRequest FolderLoad} :
    l.answer force tree r = some found ↔ ∃ entries time, l.listing tree r.rel = some entries ∧
      r.modified = some time ∧
      l.loadFolder force r.rel time.round entries (l.store.read tree r.rel) = .ok found.result ∧
      found.further = (FileTimes.empty.record r.rel entries).requests r.rel entries := by
  obtain ⟨rel, modified⟩ := r
  cases hlist : tree.list (folderPath l.originals rel) with
  | error cause => cases modified <;> simp [answer, listing, hlist, Except.toOption]
  | ok entries =>
    cases modified with
    | none => simp [answer]
    | some time =>
      simp only [answer, listing, hlist, Except.toOption, Option.some.injEq, exists_and_left,
        exists_eq_left']
      obtain ⟨result, further⟩ := found
      cases hload : l.loadFolder force rel time.round entries (l.store.read tree rel) with
      | error e => simp
      | ok f => simp [eq_comm]

/-- The requests that follow are for subfolders, with the times of the listing. -/
theorem mem_further_iff (htree : tree.WellFormed) {r q : FolderRequest} :
    q ∈ Crew.further (l.answer force tree r) ↔ (l.answer force tree r).isSome = true ∧
      ∃ entries, l.listing tree r.rel = some entries ∧ ∃ e ∈ entries, e.isSubfolder = true ∧
        requestFor (joinRel r.rel e.name, e.modified) = q := by
  cases hanswer : l.answer force tree r with
  | none => simp [Crew.further]
  | some found =>
    obtain ⟨entries, time, hlisting, -, -, hfurther⟩ := answer_eq_some_iff.1 hanswer
    have hnames : (entries.map Entry.name).Nodup :=
      (inOrder_stopAt (l := l) htree (r.rel, time) entries hlisting).1
    rw [FileTimes.requests_record _ _ hnames] at hfurther
    simp only [Crew.further, Option.map_some, Option.getD_some, hfurther, List.mem_map,
      Stop.mem_below_iff, hlisting, Option.some.injEq, exists_eq_left', Option.isSome_some, true_and]
    constructor
    · rintro ⟨_, ⟨e, he, hsub, rfl⟩, rfl⟩
      exact ⟨e, he, hsub, rfl⟩
    · rintro ⟨e, he, hsub, rfl⟩
      exact ⟨_, ⟨e, he, hsub, rfl⟩, rfl⟩

/-- What follows from a request for a path of names are requests for paths of one name more. -/
theorem names_of_mem_further (htree : tree.WellFormed) {r q : FolderRequest} {names : List String}
    (hrel : r.rel = relOf names)
    (hq : q ∈ Crew.further (l.answer force tree r)) :
    ∃ name, IsName name ∧ q.rel = relOf (names ++ [name]) := by
  obtain ⟨-, entries, hlisting, e, he, -, rfl⟩ := (mem_further_iff htree).1 hq
  refine ⟨e.name, (inOrder_stopAt (l := l) htree (r.rel, .epoch) entries hlisting).2 e he, ?_⟩
  rw [relOf_concat, ← hrel]
  rfl

/-- The requests that follow come to an end, since paths become too long to be listed. -/
theorem finiteBelow_answer (htree : tree.WellFormed) (depth : Nat) {r : FolderRequest}
    {names : List String} (hnames : ∀ n ∈ names, IsName n) (hrel : r.rel = relOf names)
    (hdepth : maxFolders ≤ names.length + depth) : FiniteBelow (l.answer force tree) r := by
  induction depth generalizing r names with
  | zero =>
    refine .intro fun q hq => ?_
    obtain ⟨-, entries, hlisting, -⟩ := (mem_further_iff htree).1 hq
    rw [hrel, listing_of_deep l tree hnames hdepth] at hlisting
    cases hlisting
  | succ depth ih =>
    refine .intro fun q hq => ?_
    obtain ⟨name, hname, hrel'⟩ := names_of_mem_further htree hrel hq
    refine ih (forall_isName_concat hnames hname) hrel' ?_
    simp only [List.length_append, List.length_singleton]
    omega

theorem rel_of_loadFolder {rel : String} {time : Instant} {entries : List Entry} {old : Snapshot}
    {f : FolderLoad} (h : l.loadFolder force rel time entries old = .ok f) : f.album.rel = rel := by
  unfold loadFolder at h
  cases htimes : entries.forM fun e => e.modified.ensureInRange with
  | error e => rw [htimes] at h; cases h
  | ok =>
    rw [htimes] at h
    cases halbum : (l.upToDate force rel time entries old).1.snapshot.materialize rel l.offset with
    | error e => simp [halbum, bind, Except.bind] at h
    | ok album =>
      simp only [halbum, bind, Except.bind, pure, Except.pure, Except.ok.injEq] at h
      rw [← h]
      exact (Album.ofImages_eq_ok halbum).1

/-- **The requests of a load make a tree.** -/
theorem requestTree_answer (htree : tree.WellFormed) (modified : Option Instant) :
    RequestTree (l.answer force tree) FolderRequest.rel ⟨"", modified⟩ where
  finite := finiteBelow_answer htree maxFolders forall_isName_nil rfl (by simp)
  path_root := rfl
  paths_further := fun r hr => by
    cases hanswer : l.answer force tree r with
    | none => exact ⟨[], List.nodup_nil, forall_isName_nil, rfl⟩
    | some found =>
      obtain ⟨entries, time, hlisting, -, -, hfurther⟩ := answer_eq_some_iff.1 hanswer
      obtain ⟨hnodup, hnames⟩ := inOrder_stopAt (l := l) htree (r.rel, time) entries hlisting
      have hsub : (entries.filter Entry.isSubfolder).Sublist entries := List.filter_sublist
      refine ⟨subfolderNames entries, (hsub.map Entry.name).nodup hnodup, fun n hn => ?_, ?_⟩
      · obtain ⟨e, he, rfl⟩ := List.mem_map.1 hn
        exact hnames e (List.mem_filter.1 he).1
      · show found.further.map FolderRequest.rel = _
        rw [hfurther, FileTimes.requests, List.map_map]
        rfl
  path_album := fun r found _ hfound => by
    obtain ⟨_, _, -, -, hload, -⟩ := answer_eq_some_iff.1 hfound
    exact rel_of_loadFolder hload

/-! ### Stops and requests -/

/-- The requests for the stops of a walk over a disk that stays as it is. -/
def requests (l : Loader) (tree : FileTree) : List FolderRequest :=
  (l.stops tree).map fun s => requestFor s.folder

theorem requests_nodup (htree : tree.WellFormed) : (l.requests tree).Nodup :=
  List.pairwise_map.2 ((stops_nodup htree).imp fun hne hsame =>
    hne (congrArg FolderRequest.rel hsame))

variable {root : FileNode}

/-- A crew sees to the requests for the stops of a walk, if every listed folder has an answer. -/
theorem asked_iff_mem_requests (htree : tree.WellFormed) (hroot : tree.stat l.originals = .ok root)
    (hanswers : ∀ s ∈ l.stops tree, s.entries.isSome = true →
      (l.answer force tree (requestFor s.folder)).isSome = true) {r : FolderRequest} :
    Asked (l.answer force tree) (requestFor ("", root.modified)) r ↔ r ∈ l.requests tree := by
  have hmem : ∀ rel time, Reaches (l.listing tree) root.modified rel time →
      requestFor (rel, time) ∈ l.requests tree := by
    intro rel time hreach
    obtain ⟨s, hs, rfl, rfl⟩ := (exists_stop_iff_listing htree hroot).2 hreach
    exact List.mem_map_of_mem hs
  constructor
  · intro h
    suffices hreach : ∃ rel time, Reaches (l.listing tree) root.modified rel time ∧
        r = requestFor (rel, time) by
      obtain ⟨rel, time, hreach, rfl⟩ := hreach
      exact hmem rel time hreach
    induction h with
    | root => exact ⟨_, _, .root, rfl⟩
    | further _ mem ih =>
      obtain ⟨rel, time, hreach, rfl⟩ := ih
      obtain ⟨-, entries, hlisting, e, he, hsub, rfl⟩ := (mem_further_iff htree).1 mem
      obtain ⟨hfile, hignored⟩ := Entry.isSubfolder_iff.1 hsub
      exact ⟨_, _, hreach.step hlisting he hfile hignored, rfl⟩
  · intro hr
    obtain ⟨s, hs, rfl⟩ := List.mem_map.1 hr
    suffices hasked : ∀ rel time, Reaches (l.listing tree) root.modified rel time →
        Asked (l.answer force tree) (requestFor ("", root.modified)) (requestFor (rel, time)) from
      hasked s.rel s.modified ((mem_stops_iff htree hroot).1 hs).1
    intro rel time hreach
    induction hreach with
    | root => exact .root
    | step around listed mem noFile notIgnored ih =>
      -- the folder around is listed, so it has an answer
      obtain ⟨s', hs', rfl, rfl⟩ := (exists_stop_iff_listing htree hroot).2 around
      refine ih.further ((mem_further_iff htree).2 ⟨hanswers s' hs' ?_, _, listed, _, mem,
        Entry.isSubfolder_iff.2 ⟨noFile, notIgnored⟩, rfl⟩)
      rw [entries_of_mem_stops htree hs', listed]
      rfl

/-! ### The walk on a disk that stays as it is -/

/-- What a stop comes to on a given disk. -/
def look (l : Loader) (force : Bool) (tree : FileTree) (s : Stop) : Option FolderLoad :=
  s.entries.bind fun entries =>
    (l.loadFolder force s.rel s.modified.round entries (l.store.read tree s.rel)).toOption

/-- The answer to the request for a stop is what the stop comes to. -/
theorem map_result_answer {s : Stop} (hs : s.entries = l.listing tree s.rel) :
    (l.answer force tree (requestFor s.folder)).map Found.result = l.look force tree s := by
  simp only [answer, requestFor, Stop.folder, look, hs, listing]
  cases tree.list (folderPath l.originals s.rel) with
  | error cause => rfl
  | ok entries =>
    simp only [Except.toOption, Option.bind_some]
    split <;> next h => rw [h]; rfl

/-- A row of visits that keeps the disk as it is: every listed folder comes to something, and this
is what comes out. -/
theorem foldlM_visit_of_kept (hkept : opts.updateDisk = false) {stops : List Stop}
    {p p' : Progress} (h : stops.foldlM (l.visit opts) p = .ok p') :
    (∀ s ∈ stops, s.entries.isSome → (l.look opts.force p.tree s).isSome) ∧
      p'.albums = p.albums ++ (stops.filterMap (l.look opts.force p.tree)).map FolderLoad.album ∧
      p'.rebuilt =
        p.rebuilt + (stops.filterMap (l.look opts.force p.tree)).countP FolderLoad.rebuilt ∧
      p'.failed = p.failed + stops.countP fun s => (l.look opts.force p.tree s).isNone := by
  induction stops generalizing p with
  | nil =>
    cases h
    simp
  | cons s stops ih =>
    obtain ⟨rel, modified, entries⟩ := s
    rw [List.foldlM_cons] at h
    cases entries with
    | none =>
      obtain ⟨hsome, halbums, hrebuilt, hfailed⟩ := ih (p := p.fail) h
      have hlook : l.look opts.force p.tree ⟨rel, modified, none⟩ = none := rfl
      refine ⟨?_, ?_, ?_, ?_⟩
      · intro s hs hlisted
        rcases List.mem_cons.1 hs with rfl | hs
        · cases hlisted
        · exact hsome s hs hlisted
      · rw [List.filterMap_cons_none hlook]
        exact halbums
      · rw [List.filterMap_cons_none hlook]
        exact hrebuilt
      · rw [List.countP_cons_of_pos (by rw [hlook]; rfl)]
        exact hfailed.trans (by simp only [Progress.fail]; omega)
    | some entries =>
      cases hload : l.loadFolder opts.force rel modified.round entries (l.store.read p.tree rel) with
      | error e => simp only [visit, visitWith, hload, bind, Except.bind] at h; cases h
      | ok f =>
        have htree : (takeIn l.keep opts rel entries f p).tree = p.tree := by
          rw [takeIn, hkept, Bool.and_false]
          rfl
        have hrest : stops.foldlM (l.visit opts) (takeIn l.keep opts rel entries f p) = .ok p' := by
          simpa only [visit, visitWith, hload, bind, Except.bind, pure, Except.pure] using h
        obtain ⟨hsome, halbums, hrebuilt, hfailed⟩ := ih hrest
        have hlook : l.look opts.force p.tree ⟨rel, modified, some entries⟩ = some f := by
          rw [look, Option.bind_some, hload]
          rfl
        rw [htree] at hsome halbums hrebuilt hfailed
        refine ⟨?_, ?_, ?_, ?_⟩
        · intro s hs hlisted
          rcases List.mem_cons.1 hs with rfl | hs
          · rw [hlook]; rfl
          · exact hsome s hs hlisted
        · rw [halbums, List.filterMap_cons_some hlook, List.map_cons]
          simp only [takeIn, List.append_assoc, List.singleton_append]
        · rw [hrebuilt, List.filterMap_cons_some hlook, List.countP_cons]
          simp only [takeIn]
          split <;> omega
        · rw [hfailed, List.countP_cons_of_neg (by rw [hlook]; exact Bool.false_ne_true)]
          rfl

/-- The stops of a walk come to the answers to the requests for them. -/
theorem filterMap_answer (htree : tree.WellFormed) :
    ((l.requests tree).filterMap fun r => (l.answer force tree r).map Found.result) =
      (l.stops tree).filterMap (l.look force tree) := by
  rw [requests, List.filterMap_map]
  exact List.filterMap_congr fun s hs => map_result_answer (entries_of_mem_stops htree hs)

theorem countP_answer (htree : tree.WellFormed) :
    (l.requests tree).countP (fun r => (l.answer force tree r).isNone) =
      (l.stops tree).countP fun s => (l.look force tree s).isNone := by
  rw [requests, List.countP_map]
  refine List.countP_congr fun s hs => ?_
  rw [Function.comp_apply, ← map_result_answer (entries_of_mem_stops htree hs), Option.isNone_map]

/-- **A crew brings home what the walk gives**, if the disk is kept as it is: on every schedule it
sees to the requests for the stops of the walk and ends with the same albums in the same order, and
the same numbers. -/
theorem onCourse_load (htree : tree.WellFormed) (hroot : tree.stat l.originals = .ok root)
    (hkept : opts.updateDisk = false) {loaded : Loaded} (hload : l.load opts tree = .ok loaded)
    {workers n : Nat} {c : Crew FolderRequest FolderLoad}
    (hrun : Crew.Run (l.answer opts.force tree) (Crew.begin workers root.modified) n c) :
    Crew.OnCourse (l.answer opts.force tree) FolderRequest.rel (l.requests tree)
      (loaded.albums, loaded.stats) n c := by
  have hstill : opts.updateDisk = true → l.Beside tree := fun h => absurd (h.symm.trans hkept) nofun
  rw [load_eq l opts htree hroot, outcome_eq_ok_iff, stopsOn_eq_stops htree hstill] at hload
  obtain ⟨p, hp, rfl⟩ := hload
  obtain ⟨hsome, halbums, hrebuilt, hfailed⟩ :=
    foldlM_visit_of_kept hkept (ensureInRange_bind_eq_ok_iff.1 hp).2
  have hanswers : ∀ s ∈ l.stops tree, s.entries.isSome = true →
      (l.answer opts.force tree (requestFor s.folder)).isSome = true := by
    intro s hs hlisted
    rw [← Option.isSome_map (f := Found.result), map_result_answer (entries_of_mem_stops htree hs)]
    exact hsome s hs hlisted
  have hworkers : 0 < crewSize workers := Nat.lt_of_lt_of_le Nat.zero_lt_one (Nat.le_max_right _ _)
  have hcourse := Crew.onCourse (requestTree_answer htree (some root.modified)) hworkers hrun
    (requests_nodup htree) fun r => (asked_iff_mem_requests htree hroot hanswers).symm
  have houtcome : outcomeOf ((l.requests tree).map fun r => (r, l.answer opts.force tree r)) =
      (p.loaded.albums, p.loaded.stats) := by
    simp only [outcomeOf, List.filterMap_map, List.countP_map, Function.comp_def,
      filterMap_answer htree, countP_answer htree, Progress.loaded, halbums, hrebuilt, hfailed, begin,
      List.nil_append, Nat.zero_add]
  exact houtcome ▸ hcourse

end Loader
end AlbumIndex
