import AlbumIndex.Proofs.Disk.Making
import AlbumIndex.Proofs.Disk.Work

/-!
# Filling a store

The snapshots of a whole collection are written one after the other into a store that is empty at
first, that of a folder before those of its subfolders.  Each then has a folder of its own in the
store, with its two files, and is read back as it was written.  There is one exception: a folder of
the collection may have the very name of one of the two files.  Where its snapshot should lie there
is the file of the folder around it, so neither it nor anything below it gets a place in the store.
And the path of a file in the store can be too long, although that in the collection is not.

## Main definitions

* `SnapshotStore.Job` — a snapshot to be written.
* `SnapshotStore.fill` — snapshots written one after the other, and which of them failed.
* `SnapshotStore.ParentsFirst` — folders come before their subfolders, and none comes twice.
* `SnapshotStore.HasMirror` — a folder of the collection has a place in the store.
* `SnapshotStore.Filled` — what a store looks like on the way.

## Main results

* `SnapshotStore.Filled.write` — what one more snapshot does to the store.
* `SnapshotStore.fill_eq` — **the snapshots of all folders that have a place in the store are written
  and read back**, and the others fail.
-/

namespace AlbumIndex
namespace Disk

open Calendar FileTree

namespace SnapshotStore

/-! ### Jobs -/

/-- A snapshot to be written, with the names on the path of its folder. -/
structure Job where
  names : List String
  snapshot : Snapshot
deriving DecidableEq

/-- The path of the folder. -/
def Job.rel (j : Job) : String := relOf j.names

/-- Snapshots written one after the other: the disk afterwards, and the ones that failed. -/
def fill (s : SnapshotStore) : FileTree → List Job → FileTree × List Job
  | t, [] => (t, [])
  | t, j :: jobs =>
    let written := s.write t j.rel j.snapshot
    let rest := fill s written.1 jobs
    (rest.1, if written.2.isSome then j :: rest.2 else rest.2)

theorem fill_cons_fst (s : SnapshotStore) (t : FileTree) (j : Job) (jobs : List Job) :
    (s.fill t (j :: jobs)).1 = (s.fill (s.write t j.rel j.snapshot).1 jobs).1 := by
  rw [fill]

theorem fill_cons_snd (s : SnapshotStore) (t : FileTree) (j : Job) (jobs : List Job) :
    (s.fill t (j :: jobs)).2 =
      if (s.write t j.rel j.snapshot).2.isSome then
        j :: (s.fill (s.write t j.rel j.snapshot).1 jobs).2
      else (s.fill (s.write t j.rel j.snapshot).1 jobs).2 := by
  rw [fill]

/-- Folders come before their subfolders and none comes twice, some having come before. -/
def ParentsFirst (before : List (List String)) : List Job → Prop
  | [] => True
  | j :: jobs => (∀ n ∈ j.names, IsName n) ∧ j.names ∉ before ∧
      (j.names = [] ∨ j.names.dropLast ∈ before) ∧ ParentsFirst (before ++ [j.names]) jobs

instance decidableParentsFirst :
    (before : List (List String)) → (jobs : List Job) → Decidable (ParentsFirst before jobs)
  | _, [] => inferInstanceAs (Decidable True)
  | before, j :: jobs =>
    have := decidableParentsFirst (before ++ [j.names]) jobs
    inferInstanceAs (Decidable (_ ∧ _))

/-- The folder of the collection has a place in the store: no name on its path is that of a file of
the store, and the path of its files there is not too long. -/
structure HasMirror (s : SnapshotStore) (names : List String) : Prop where
  binary : binaryName ∉ names
  json : jsonName ∉ names
  limits : InLimits s.root (names ++ [jsonName])

instance (s : SnapshotStore) (names : List String) : Decidable (s.HasMirror names) :=
  decidable_of_iff (binaryName ∉ names ∧ jsonName ∉ names ∧ InLimits s.root (names ++ [jsonName]))
    ⟨fun ⟨hbinary, hjson, hlimits⟩ => ⟨hbinary, hjson, hlimits⟩,
      fun h => ⟨h.binary, h.json, h.limits⟩⟩

variable {s : SnapshotStore} {t t' t'' : FileTree} {folder : Place} {time : Instant}
  {names : List String} {paths : List (List String)} {changed : List Place}

namespace HasMirror

/-- The path of the file that is read back is not too long. -/
theorem limits_binary (h : s.HasMirror names) (hnames : ∀ n ∈ names, IsName n) :
    InLimits s.root (names ++ [binaryName]) := by
  have hlimits : InLimits s.root (names ++ ([] ++ [jsonName])) := h.limits
  exact hlimits.shorter (forall_isName_concat hnames isName_jsonName) isName_binaryName (by decide)
    (by decide)

/-- With a folder, those around it have a place in the store. -/
theorem around {more : List String} (h : s.HasMirror (names ++ more))
    (hnames : ∀ n ∈ names ++ more, IsName n) : s.HasMirror names where
  binary hmem := h.binary (List.mem_append_left _ hmem)
  json hmem := h.json (List.mem_append_left _ hmem)
  limits := by
    have hlimits := h.limits
    have hall := forall_isName_concat hnames isName_jsonName
    rw [List.append_assoc] at hlimits hall
    exact hlimits.shorter hall isName_jsonName (by decide) (Nat.le_refl _)

end HasMirror

/-! ### What belongs to a path -/

/-- What belongs to a path: its folder and its two files, by their names below the root. -/
inductive Belongs (names : List String) : Place → FileNode → Prop where
  | folder {time : Instant} : Belongs names (names.map Name.text) (.folder time)
  | file {name : String} {bytes : List UInt8} {time : Instant}
    (own : name = binaryName ∨ name = jsonName) :
    Belongs names ((names ++ [name]).map Name.text) (.file bytes time)

/-- Nothing is new below the root but what belongs to a path. -/
def Adds (folder : Place) (names : List String) (t t' : FileTree) : Prop :=
  ∀ place node, t'.node? place = some node → t.node? place = some node ∨
    ∃ below, place = folder ++ below ∧ Belongs names below node

namespace Adds

theorem refl (t : FileTree) : Adds folder names t t := fun _ _ => Or.inl

theorem trans (h : Adds folder names t t') (h' : Adds folder names t' t'') :
    Adds folder names t t'' := fun place node hnode =>
  (h' place node hnode).elim (h place node) Or.inr

theorem put {below : Place} {node : FileNode} (h : Belongs names below node) :
    Adds folder names t (t.put (folder ++ below) node) := by
  intro place node' hnode
  rw [node?_put] at hnode
  split at hnode
  · next hplace =>
    cases hnode
    exact Or.inr ⟨below, hplace, h⟩
  · exact Or.inl hnode

/-- Nothing that belongs to a path is a link. -/
theorem unlinked (h : Adds folder names t t') (hunlinked : t.UnlinkedBelow folder) :
    t'.UnlinkedBelow folder := by
  intro rest link hrest hlink
  rcases h _ _ hlink with hold | ⟨_, -, hbelongs⟩
  · exact hunlinked rest link hrest hold
  · cases hbelongs

/-- The folder of another path was there. -/
theorem folder_of_ne {others : List String} (h : Adds folder names t t') (hne : others ≠ names)
    (hnode : ∃ time, t'.node? (folder ++ others.map Name.text) = some (.folder time)) :
    ∃ time, t.node? (folder ++ others.map Name.text) = some (.folder time) := by
  obtain ⟨time, hnode⟩ := hnode
  refine ⟨time, (h _ _ hnode).resolve_right ?_⟩
  rintro ⟨below, hplace, hbelongs⟩
  generalize hfolder : FileNode.folder time = node at hbelongs
  cases hbelongs with
  | folder =>
    rw [List.append_cancel_left_eq, List.map_inj_right fun _ _ h => Name.text.inj h] at hplace
    exact hne hplace
  | file => cases hfolder

end Adds

theorem folder_eq_join (hnames : ∀ n ∈ names, IsName n) (hne : names ≠ []) :
    s.folder (relOf names) = s.root.join (relOf names) :=
  if_neg (mt (relOf_eq_empty_iff hnames).1 hne)

/-- A file written under a path is one of the path. -/
theorem adds_writeFile (hnames : ∀ n ∈ names, IsName n) {name : String}
    (own : name = binaryName ∨ name = jsonName)
    (hroot : t.locate true (s.root.join ".") = .ok (.found folder (.folder time)))
    (hunlinked : t.UnlinkedBelow folder) (bytes : List UInt8) :
    Adds folder names t (writeFile t ((s.folder (relOf names)).join name) bytes).1 := by
  have hname : IsName name := by
    rcases own with rfl | rfl
    · exact isName_binaryName
    · exact isName_jsonName
  have hplace : ∀ target, t.locate true ((s.folder (relOf names)).join name) = .ok target →
      target.place = folder ++ (names ++ [name]).map Name.text := fun target hlocate =>
    (locate_join_eq_ok (forall_isName_concat hnames hname) (by simp) hroot hunlinked
      (join_folder hnames hname ▸ hlocate)).2
  unfold writeFile FileTree.write
  cases hlocate : t.locate true ((s.folder (relOf names)).join name) with
  | error cause => exact .refl t
  | ok target =>
    have hplace := hplace target hlocate
    cases target with
    | missing place =>
      obtain rfl : place = _ := hplace
      exact .put (.file own)
    | found place node =>
      obtain rfl : place = _ := hplace
      cases node with
      | file old stamp => exact .put (.file own)
      | _ => exact .refl t

/-- **A write adds what belongs to its path**, if making the folder does. -/
theorem adds_write (hnames : ∀ n ∈ names, IsName n)
    (hroot : t.locate true (s.root.join ".") = .ok (.found folder (.folder time)))
    (hunlinked : t.UnlinkedBelow folder)
    (hfolders : Adds folder names t (t.makeFolders (s.folder (relOf names))).1)
    (snapshot : Snapshot) : Adds folder names t (s.write t (relOf names) snapshot).1 := by
  have hkeeps := Keeps.makeFolders t (s.folder (relOf names))
  unfold write
  split
  · next h => rw [h] at hfolders; exact hfolders
  · next t₁ h =>
    rw [h] at hfolders hkeeps
    obtain ⟨_, hroot₁⟩ := hkeeps.locate_folder hroot
    have hunlinked₁ := hfolders.unlinked hunlinked
    have hbinary := adds_writeFile hnames (Or.inl rfl) hroot₁ hunlinked₁ snapshot.encode
    obtain ⟨_, hkeeps₂⟩ := keeps_writeFile t₁ (s.binaryFile (relOf names)) snapshot.encode
    split
    · next h₁ =>
      rw [binaryFile] at h₁
      rw [h₁] at hbinary
      exact hfolders.trans hbinary
    · next t₂ h₁ =>
      rw [h₁] at hkeeps₂
      rw [binaryFile] at h₁
      rw [h₁] at hbinary
      obtain ⟨_, hroot₂⟩ := hkeeps₂.locate_folder hroot₁
      exact (hfolders.trans hbinary).trans
        (adds_writeFile hnames (Or.inr rfl) hroot₂ (hbinary.unlinked hunlinked₁) _)

/-! ### Folders with their files -/

/-- The folder of a path is there with its two files. -/
structure Mirrored (t : FileTree) (folder : Place) (names : List String) : Prop where
  itself : ∃ time, t.node? (folder ++ names.map Name.text) = some (.folder time)
  files : ∀ name, name = binaryName ∨ name = jsonName →
    ∃ bytes time, t.node? (folder ++ (names ++ [name]).map Name.text) = some (.file bytes time)

theorem Mirrored.keeps (h : Mirrored t folder names) (hkeeps : Keeps changed t t') :
    Mirrored t' folder names where
  itself := by
    obtain ⟨_, hfolder⟩ := h.itself
    obtain ⟨node, hnode, halike, -⟩ := hkeeps.node _ _ hfolder
    cases node with
    | folder time => exact ⟨time, hnode⟩
    | _ => cases halike
  files name own := by
    obtain ⟨_, _, hfile⟩ := h.files name own
    obtain ⟨node, hnode, halike, -⟩ := hkeeps.node _ _ hfile
    cases node with
    | file bytes time => exact ⟨bytes, time, hnode⟩
    | _ => cases halike

/-! ### Stores under way -/

/-- What the store looks like when some paths have had their turn. -/
structure Filled (s : SnapshotStore) (folder : Place) (paths : List (List String)) (t : FileTree) :
    Prop where
  closed : t.Closed
  root : ∃ time, t.locate true (s.root.join ".") = .ok (.found folder (.folder time))
  names : ∀ names ∈ paths, ∀ n ∈ names, IsName n
  /-- With a folder, those around it have had their turn. -/
  around : ∀ names more, names ++ more ∈ paths → names ∈ paths
  /-- What is there belongs to one of the paths. -/
  below : ∀ place node, place ≠ [] → t.node? (folder ++ place) = some node →
    ∃ names ∈ paths, Belongs names place node
  /-- Something lies where a folder should be, if only the one around it is there and the path is
  not too long. -/
  tried : ∀ around name, around ++ [name] ∈ paths →
    (∃ time, t.node? (folder ++ around.map Name.text) = some (.folder time)) →
    InLimits s.root (around ++ [name]) →
    t.node? (folder ++ (around ++ [name]).map Name.text) ≠ none
  /-- The folders that have a place in the store are there. -/
  mirrors : ∀ names ∈ paths, s.HasMirror names → Mirrored t folder names

/-- A path whose turn comes next. -/
structure Next (paths : List (List String)) (names : List String) : Prop where
  isName : ∀ n ∈ names, IsName n
  new : names ∉ paths
  around : ∀ around name, names = around ++ [name] → around ∈ paths

namespace Filled

theorem unlinked (h : s.Filled folder paths t) : t.UnlinkedBelow folder := by
  intro rest link hrest hlink
  obtain ⟨_, -, hbelongs⟩ := h.below rest _ hrest hlink
  cases hbelongs

/-- Nothing lies in the folder of a path that has not had its turn. -/
theorem missing_inside (h : s.Filled folder paths t) (hnew : names ∉ paths) (name : String) :
    t.node? (folder ++ (names ++ [name]).map Name.text) = none := by
  cases hnode : t.node? (folder ++ (names ++ [name]).map Name.text) with
  | none => rfl
  | some node =>
    obtain ⟨others, hmem, hbelongs⟩ := h.below _ _ (by simp) hnode
    generalize hplace : (names ++ [name]).map Name.text = place at hbelongs
    cases hbelongs with
    | folder =>
      obtain rfl := (List.map_inj_right fun _ _ h => Name.text.inj h).1 hplace
      exact absurd (h.around _ _ hmem) hnew
    | file own =>
      rw [List.map_inj_right fun _ _ h => Name.text.inj h, List.append_singleton_inj] at hplace
      exact absurd (hplace.1 ▸ hmem) hnew

/-- Nothing lies at the place of a path that has not had its turn, if it is not that of a file. -/
theorem missing_folder (h : s.Filled folder paths t) (hnew : names ∉ paths) (hne : names ≠ [])
    (hbinary : binaryName ∉ names) (hjson : jsonName ∉ names) :
    t.node? (folder ++ names.map Name.text) = none := by
  cases hnode : t.node? (folder ++ names.map Name.text) with
  | none => rfl
  | some node =>
    obtain ⟨others, hmem, hbelongs⟩ := h.below _ _ (by simpa using hne) hnode
    generalize hplace : names.map Name.text = place at hbelongs
    cases hbelongs with
    | folder =>
      obtain rfl := (List.map_inj_right fun _ _ h => Name.text.inj h).1 hplace
      exact absurd hmem hnew
    | file own =>
      obtain rfl := (List.map_inj_right fun _ _ h => Name.text.inj h).1 hplace
      rcases own with rfl | rfl
      · exact absurd (by simp) hbinary
      · exact absurd (by simp) hjson

/-- The folders around the next path have had their turn. -/
theorem mem_of_append (h : s.Filled folder paths t) {front rest : List String}
    (hnext : Next paths (front ++ rest)) (hrest : rest ≠ []) : front ∈ paths := by
  rw [← List.dropLast_concat_getLast hrest] at hnext
  exact h.around front rest.dropLast (hnext.around _ (rest.getLast hrest) (by simp))

/-- On the way to the next path no name is missing. -/
theorem locate_ne_notFound (h : s.Filled folder paths t) (hnext : Next paths names)
    (hne : names ≠ []) : t.locate false (s.root.join (relOf names)) ≠ .error .notFound := by
  obtain ⟨_, hroot⟩ := h.root
  refine locate_join_ne_notFound hnext.isName hne hroot h.unlinked
    fun around name rest hsplit hrest haround hlimits => h.tried around name ?_ haround hlimits
  rw [hsplit, List.append_cons] at hnext
  exact h.mem_of_append hnext hrest

/-- Making the folder of the next path makes no other one. -/
theorem adds_makeFolders (h : s.Filled folder paths t) (hnext : Next paths names) :
    Adds folder names t (t.makeFolders (s.folder (relOf names))).1 := by
  obtain ⟨_, hroot⟩ := h.root
  by_cases hne : names = []
  · subst hne
    rw [relOf_nil, SnapshotStore.folder, if_pos rfl, makeFolders_of_folder hroot]
    exact .refl t
  · rw [folder_eq_join hnext.isName hne]
    rcases makeFolders_join_fst hnext.isName hne (h.locate_ne_notFound hnext hne) with
      hsame | ⟨place, hlocate, hput⟩
    · rw [hsame]
      exact .refl t
    · obtain ⟨-, rfl : place = _⟩ := locate_join_eq_ok hnext.isName hne hroot h.unlinked hlocate
      rw [hput]
      exact .put .folder

theorem adds_write (h : s.Filled folder paths t) (hnext : Next paths names) (snapshot : Snapshot) :
    Adds folder names t (s.write t (relOf names) snapshot).1 := by
  obtain ⟨_, hroot⟩ := h.root
  exact SnapshotStore.adds_write hnext.isName hroot h.unlinked (h.adds_makeFolders hnext) snapshot

end Filled

/-! ### Writing where a folder has a place -/

/-- The folder of a path is there. -/
structure Ready (s : SnapshotStore) (folder : Place) (names : List String) (t : FileTree) : Prop where
  closed : t.Closed
  root : ∃ time, t.locate true (s.root.join ".") = .ok (.found folder (.folder time))
  itself : ∃ time, t.node? (folder ++ names.map Name.text) = some (.folder time)

/-- A new file in the folder of a path. -/
theorem Ready.writeFile (h : s.Ready folder names t) {name : String}
    (hnames : ∀ n ∈ names ++ [name], IsName n) (hlimits : InLimits s.root (names ++ [name]))
    (hmissing : t.node? (folder ++ (names ++ [name]).map Name.text) = none) (bytes : List UInt8) :
    SnapshotStore.writeFile t ((s.folder (relOf names)).join name) bytes =
        (t.put (folder ++ (names ++ [name]).map Name.text) (.file bytes t.clock), none) ∧
      s.Ready folder names
        (t.put (folder ++ (names ++ [name]).map Name.text) (.file bytes t.clock)) := by
  obtain ⟨_, hroot⟩ := h.root
  have hlocate : t.locate true ((s.folder (relOf names)).join name) =
      .ok (.missing (folder ++ (names ++ [name]).map Name.text)) := by
    rw [join_folder (fun n hn => hnames n (List.mem_append_left _ hn)) (hnames name (by simp))]
    exact locate_join_missing true h.closed hnames hlimits hroot h.itself hmissing
  have hkeeps := Keeps.put_missing hmissing (.file bytes t.clock)
  refine ⟨?_, h.closed.put_missing (leads_of_locate hlocate) _, hkeeps.locate_folder hroot, ?_⟩
  · rw [writeFile_eq, FileTree.write, hlocate]
  · obtain ⟨time, hfolder⟩ := h.itself
    exact ⟨time, by rw [node?_put_of_ne (by simp), hfolder]⟩

namespace Filled

/-- The folder of a path that has a place in the store is made. -/
theorem makeFolders_of_hasMirror (h : s.Filled folder paths t) (hnext : Next paths names)
    (hmirror : s.HasMirror names) :
    ∃ t₁, t.makeFolders (s.folder (relOf names)) = (t₁, none) ∧ s.Ready folder names t₁ ∧
      ∀ name, t₁.node? (folder ++ (names ++ [name]).map Name.text) = none := by
  obtain ⟨time, hroot⟩ := h.root
  have hinside := h.missing_inside hnext.new
  rcases List.eq_nil_or_concat names with rfl | ⟨around, name, hconcat⟩
  · refine ⟨t, ?_, ⟨h.closed, h.root, time, ?_⟩, hinside⟩
    · rw [relOf_nil, SnapshotStore.folder, if_pos rfl, makeFolders_of_folder hroot]
    · rw [List.map_nil, List.append_nil, node?_of_locate hroot]
  · rw [List.concat_eq_append] at hconcat
    subst hconcat
    have hmissing := h.missing_folder hnext.new (by simp) hmirror.binary hmirror.json
    have hfolder := (h.mirrors around (hnext.around around name rfl)
      (hmirror.around hnext.isName)).itself
    have hlocate := locate_join_missing false h.closed hnext.isName
      (hmirror.limits.front (forall_isName_concat hnext.isName isName_jsonName)) hroot hfolder
      hmissing
    refine ⟨t.put (folder ++ (around ++ [name]).map Name.text) (.folder t.clock), ?_,
      ⟨h.closed.put_missing (leads_of_locate hlocate) _,
        (Keeps.put_missing hmissing _).locate_folder hroot, _, node?_put_self _ _⟩, fun name => ?_⟩
    · rw [folder_eq_join hnext.isName (by simp)]
      exact makeFolders_join_missing hnext.isName (by simp) hlocate
    · rw [node?_put_of_ne (by simp), hinside]

/-- **The snapshot of a path that has a place in the store is written**, with its two files. -/
theorem write_of_hasMirror (h : s.Filled folder paths t) (hnext : Next paths names)
    (hmirror : s.HasMirror names) (snapshot : Snapshot) :
    ∃ t', s.write t (relOf names) snapshot = (t', none) ∧ Mirrored t' folder names ∧
      ∃ time, t'.node? (folder ++ (names ++ [binaryName]).map Name.text) =
        some (.file snapshot.encode time) := by
  obtain ⟨t₁, hmade, hready, hinside⟩ := h.makeFolders_of_hasMirror hnext hmirror
  have hdifferent : folder ++ (names ++ [jsonName]).map Name.text ≠
      folder ++ (names ++ [binaryName]).map Name.text := by
    rw [ne_eq, places_inj]
    exact fun h => absurd h.2 (by decide)
  obtain ⟨hbinary, hready₂⟩ := hready.writeFile
    (forall_isName_concat hnext.isName isName_binaryName) (hmirror.limits_binary hnext.isName)
    (hinside binaryName) snapshot.encode
  obtain ⟨hjson, hready₃⟩ := hready₂.writeFile
    (forall_isName_concat hnext.isName isName_jsonName) hmirror.limits
    (by rw [node?_put_of_ne hdifferent, hinside]) snapshot.json.pretty.toUTF8.data.toList
  have hfile : ∀ node, ((t₁.put (folder ++ (names ++ [binaryName]).map Name.text)
      (.file snapshot.encode t₁.clock)).put (folder ++ (names ++ [jsonName]).map Name.text)
        node).node? (folder ++ (names ++ [binaryName]).map Name.text) =
      some (.file snapshot.encode t₁.clock) := fun node => by
    rw [node?_put_of_ne hdifferent.symm, node?_put_self]
  refine ⟨_, ?_, ⟨hready₃.itself, fun name own => ?_⟩, _, hfile _⟩
  · unfold SnapshotStore.write
    rw [hmade]
    dsimp only
    rw [binaryFile, hbinary]
    exact hjson
  · rcases own with rfl | rfl
    · exact ⟨_, _, hfile _⟩
    · exact ⟨_, _, node?_put_self _ _⟩

/-- A snapshot that was written has its file for people where its names say. -/
theorem json_of_write (h : s.Filled folder paths t) (hnext : Next paths names)
    {snapshot : Snapshot} (hwrite : s.write t (relOf names) snapshot = (t', none)) :
    InLimits s.root (names ++ [jsonName]) ∧
      ∃ node, t'.node? (folder ++ (names ++ [jsonName]).map Name.text) = some node := by
  have hadds := h.adds_write hnext snapshot
  obtain ⟨_, hkeeps⟩ := s.keeps_write t (relOf names) snapshot
  obtain ⟨_, hroot⟩ := h.root
  obtain ⟨_, hroot'⟩ := hkeeps.locate_folder hroot
  rw [hwrite] at hadds hroot'
  obtain ⟨place, node, hlocate⟩ : ∃ place node,
      t'.locate true (s.jsonFile (relOf names)) = .ok (.found place node) := by
    unfold SnapshotStore.write at hwrite
    split at hwrite
    · cases hwrite
    · split at hwrite
      · cases hwrite
      · obtain ⟨place, node, hlocate, -⟩ := write_eq_put (writeFile_eq.1 hwrite)
        exact ⟨place, node, hlocate⟩
  rw [jsonFile, join_folder hnext.isName isName_jsonName] at hlocate
  obtain ⟨hlimits, rfl : place = _⟩ := locate_join_eq_ok
    (forall_isName_concat hnext.isName isName_jsonName) (by simp) hroot'
    (hadds.unlinked h.unlinked) hlocate
  exact ⟨hlimits, node, node?_of_locate hlocate⟩

/-- **A snapshot is written only where its folder has a place in the store**: under the name of a
file of the store, there is that file and no folder. -/
theorem hasMirror_of_write (h : s.Filled folder paths t) (hnext : Next paths names)
    {snapshot : Snapshot} (hwrite : s.write t (relOf names) snapshot = (t', none)) :
    s.HasMirror names := by
  obtain ⟨hlimits, node, hjson⟩ := h.json_of_write hnext hwrite
  obtain ⟨_, hkeeps⟩ := s.keeps_write t (relOf names) snapshot
  have hclosed := (s.work_write t (relOf names) snapshot).closed h.closed
  rw [hwrite] at hkeeps hclosed
  cases hfind : names.find? fun n => n = binaryName ∨ n = jsonName with
  | none =>
    rw [List.find?_eq_none] at hfind
    exact ⟨fun hmem => hfind _ hmem (by simp), fun hmem => hfind _ hmem (by simp), hlimits⟩
  | some name =>
    obtain ⟨hown, front, back, rfl, hfront⟩ := List.find?_eq_some_iff_append.1 hfind
    -- the folder before the name is there with its files, one of which has the name
    have hall := forall_isName_concat hnext.isName isName_jsonName
    rw [List.append_assoc] at hlimits hall
    have hmirror : s.HasMirror front :=
      ⟨fun hmem => by simpa using hfront _ hmem, fun hmem => by simpa using hfront _ hmem,
        hlimits.shorter hall isName_jsonName (by decide) (Nat.le_refl _)⟩
    obtain ⟨_, _, hfile⟩ := ((h.mirrors front (h.mem_of_append hnext (by simp)) hmirror).keeps
      hkeeps).files name (by simpa using hown)
    have hsplit : folder ++ (front ++ name :: back ++ [jsonName]).map Name.text =
        folder ++ (front ++ [name]).map Name.text ++ (back ++ [jsonName]).map Name.text := by simp
    rw [hsplit] at hjson
    obtain ⟨_, hfolder⟩ := hclosed.folder (by simp) hjson
    rw [hfile] at hfolder
    cases hfolder

theorem write_eq_none_iff (h : s.Filled folder paths t) (hnext : Next paths names)
    (snapshot : Snapshot) : (s.write t (relOf names) snapshot).2 = none ↔ s.HasMirror names := by
  constructor
  · intro hnone
    cases hwrite : s.write t (relOf names) snapshot with
    | mk t' failure =>
      rw [hwrite] at hnone
      exact h.hasMirror_of_write hnext (hwrite.trans (congrArg (t', ·) hnone))
  · intro hmirror
    obtain ⟨t', hwrite, -⟩ := h.write_of_hasMirror hnext hmirror snapshot
    rw [hwrite]

/-- The folder of the next path is tried. -/
theorem tried_next (h : s.Filled folder paths t) {around : List String} {name : String}
    (hnext : Next paths (around ++ [name]))
    (haround : ∃ time, t.node? (folder ++ around.map Name.text) = some (.folder time))
    (hlimits : InLimits s.root (around ++ [name])) (snapshot : Snapshot) :
    (s.write t (relOf (around ++ [name])) snapshot).1.node?
      (folder ++ (around ++ [name]).map Name.text) ≠ none := by
  obtain ⟨_, hroot⟩ := h.root
  suffices ∃ node, (t.makeFolders (s.folder (relOf (around ++ [name])))).1.node?
      (folder ++ (around ++ [name]).map Name.text) = some node by
    obtain ⟨node, hnode⟩ := this
    obtain ⟨_, hkeeps⟩ := s.keeps_write_files t (relOf (around ++ [name])) snapshot
    obtain ⟨_, hkept, -⟩ := hkeeps.node _ _ hnode
    rw [hkept]
    nofun
  cases hnode : t.node? (folder ++ (around ++ [name]).map Name.text) with
  | some node =>
    obtain ⟨node', hkept, -⟩ := (Keeps.makeFolders t (s.folder (relOf (around ++ [name])))).node _ _
      hnode
    exact ⟨node', hkept⟩
  | none =>
    have hlocate := locate_join_missing false h.closed hnext.isName hlimits hroot
      haround hnode
    rw [folder_eq_join hnext.isName (by simp),
      makeFolders_join_missing hnext.isName (by simp) hlocate]
    exact ⟨_, node?_put_self _ _⟩

/-- **What one more snapshot does to the store.** -/
theorem write (h : s.Filled folder paths t) (hnext : Next paths names) (snapshot : Snapshot) :
    s.Filled folder (paths ++ [names]) (s.write t (relOf names) snapshot).1 := by
  have hadds := h.adds_write hnext snapshot
  obtain ⟨_, hkeeps⟩ := s.keeps_write t (relOf names) snapshot
  obtain ⟨_, hroot⟩ := h.root
  have hmem : ∀ others, others ∈ paths ++ [names] ↔ others ∈ paths ∨ others = names := by simp
  constructor
  case closed => exact (s.work_write t (relOf names) snapshot).closed h.closed
  case root => exact hkeeps.locate_folder hroot
  case names =>
    intro others hothers
    rcases (hmem others).1 hothers with hold | rfl
    · exact h.names others hold
    · exact hnext.isName
  case around =>
    intro others more hothers
    rcases (hmem _).1 hothers with hold | rfl
    · exact (hmem others).2 (Or.inl (h.around others more hold))
    · by_cases hmore : more = []
      · exact (hmem others).2 (Or.inr (by simp [hmore]))
      · exact (hmem others).2 (Or.inl (h.mem_of_append hnext hmore))
  case below =>
    intro place node hplace hnode
    rcases hadds _ _ hnode with hold | ⟨below, hsame, hbelongs⟩
    · obtain ⟨others, hothers, hbelongs⟩ := h.below place node hplace hold
      exact ⟨others, (hmem others).2 (Or.inl hothers), hbelongs⟩
    · rw [List.append_cancel_left_eq] at hsame
      exact ⟨names, (hmem names).2 (Or.inr rfl), hsame ▸ hbelongs⟩
  case tried =>
    intro around name hothers haround hlimits
    have hold : around ≠ names → ∃ time, t.node? (folder ++ around.map Name.text) =
        some (.folder time) := fun hne => hadds.folder_of_ne hne haround
    rcases (hmem _).1 hothers with hpath | rfl
    · have hnode := h.tried around name hpath
        (hold fun hsame => hnext.new (hsame ▸ h.around _ _ hpath)) hlimits
      obtain ⟨node, hnode⟩ := Option.ne_none_iff_exists'.1 hnode
      obtain ⟨_, hkept, -⟩ := hkeeps.node _ _ hnode
      rw [hkept]
      nofun
    · exact h.tried_next hnext (hold (by simp)) hlimits snapshot
  case mirrors =>
    intro others hothers hmirror
    rcases (hmem others).1 hothers with hold | rfl
    · exact (h.mirrors others hold hmirror).keeps hkeeps
    · obtain ⟨t', hwrite, hmirrored, -⟩ := h.write_of_hasMirror hnext hmirror snapshot
      rw [hwrite]
      exact hmirrored

/-- A snapshot that was written is read back. -/
theorem read_of_hasMirror (h : s.Filled folder paths t) (hnext : Next paths names)
    (hmirror : s.HasMirror names) {snapshot : Snapshot} (hfits : snapshot.Fits) :
    s.read (s.write t (relOf names) snapshot).1 (relOf names) = snapshot := by
  obtain ⟨t', hwrite, -, time, hfile⟩ := h.write_of_hasMirror hnext hmirror snapshot
  have h' := h.write hnext snapshot
  rw [hwrite] at h' ⊢
  obtain ⟨_, hroot⟩ := h'.root
  have hlocate := (locate_join_found_iff h'.closed
    (forall_isName_concat hnext.isName isName_binaryName) (by simp) hroot h'.unlinked).2
    ⟨hmirror.limits_binary hnext.isName, rfl, hfile⟩
  rw [← join_folder hnext.isName isName_binaryName] at hlocate
  rw [read_of_found hlocate, snapshotIn, Snapshot.decode?_encode hfits]
  rfl

end Filled

/-! ### A store filled from nothing -/

variable {jobs : List Job} {j : Job}

theorem ParentsFirst.next (h : ParentsFirst paths (j :: jobs)) : Next paths j.names := by
  obtain ⟨hnames, hnew, haround, -⟩ := h
  refine ⟨hnames, hnew, fun around name hsplit => ?_⟩
  have hmem := haround.resolve_left (by rw [hsplit]; simp)
  rwa [hsplit, List.dropLast_concat] at hmem

/-- No path comes twice. -/
theorem ParentsFirst.new (h : ParentsFirst paths jobs) :
    ∀ j ∈ jobs, (∀ n ∈ j.names, IsName n) ∧ j.names ∉ paths := by
  induction jobs generalizing paths with
  | nil => simp
  | cons j jobs ih =>
    refine List.forall_mem_cons.2 ⟨⟨h.next.isName, h.next.new⟩, fun j' hj' => ?_⟩
    obtain ⟨hnames, hnew⟩ := ih h.2.2.2 j' hj'
    exact ⟨hnames, fun hmem => hnew (List.mem_append_left _ hmem)⟩

/-- Filling a store is work on the paths of the jobs. -/
theorem work_fill (s : SnapshotStore) (t : FileTree) (jobs : List Job) :
    s.Work (fun rel => ∃ j ∈ jobs, j.rel = rel) t (s.fill t jobs).1 := by
  induction jobs generalizing t with
  | nil => exact .none
  | cons j jobs ih =>
    have hfirst : s.Work (fun rel => ∃ j' ∈ j :: jobs, j'.rel = rel) t
        (s.write t j.rel j.snapshot).1 := by
      refine (s.work_write t j.rel j.snapshot).mono ?_
      rintro _ rfl
      exact ⟨j, List.mem_cons_self, rfl⟩
    rw [fill_cons_fst]
    exact hfirst.trans ((ih _).mono fun _ => .imp fun _ => .imp_left (List.mem_cons_of_mem _))

/-- The snapshots of other paths are not seen in that of a path. -/
theorem Filled.read_fill (h : s.Filled folder paths t) (hjobs : ParentsFirst paths jobs)
    (hmem : names ∈ paths) : s.read (s.fill t jobs).1 (relOf names) = s.read t (relOf names) := by
  obtain ⟨_, hroot⟩ := h.root
  have hunlinked : s.Unlinked t := fun _ _ hroot' => by
    rw [hroot] at hroot'
    cases hroot'
    exact h.unlinked
  refine (s.work_fill t jobs).read_eq ?_ h.closed hunlinked (steady_of_folder hroot)
    ⟨names, h.names names hmem, rfl⟩ ?_
  · rintro _ ⟨j, hj, rfl⟩
    exact ⟨j.names, (hjobs.new j hj).1, rfl⟩
  · rintro ⟨j, hj, hsame⟩
    obtain ⟨hnames, hnew⟩ := hjobs.new j hj
    exact hnew (relOf_inj hnames (h.names names hmem) hsame ▸ hmem)

/-- **What becomes of the snapshots that are still to be written.** -/
theorem Filled.fill (h : s.Filled folder paths t) (hjobs : ParentsFirst paths jobs)
    (hfits : ∀ j ∈ jobs, j.snapshot.Fits) :
    (s.fill t jobs).2 = jobs.filter (fun j => ¬ s.HasMirror j.names) ∧
      ∀ j ∈ jobs, s.HasMirror j.names → s.read (s.fill t jobs).1 j.rel = j.snapshot := by
  induction jobs generalizing t paths with
  | nil => exact ⟨rfl, by simp⟩
  | cons j jobs ih =>
    obtain ⟨hfit, hfits⟩ := List.forall_mem_cons.1 hfits
    have hnext := hjobs.next
    have hfilled := h.write hnext j.snapshot
    obtain ⟨hfailed, hread⟩ := ih hfilled hjobs.2.2.2 hfits
    have hnone := h.write_eq_none_iff hnext j.snapshot
    rw [fill_cons_fst, fill_cons_snd, Job.rel, hfailed]
    refine ⟨?_, List.forall_mem_cons.2 ⟨fun hmirror => ?_, hread⟩⟩
    · rw [List.filter_cons]
      cases hfailure : (s.write t (relOf j.names) j.snapshot).2 with
      | none => simp [hnone.1 hfailure]
      | some e =>
        have hmirror : ¬ s.HasMirror j.names := fun hmirror => by
          rw [hnone.2 hmirror] at hfailure
          cases hfailure
        simp [hmirror]
    · rw [Job.rel, hfilled.read_fill hjobs.2.2.2 (by simp)]
      exact h.read_of_hasMirror hnext hmirror hfit

/-- **The snapshots of all folders that have a place in the store are written and read back**, and
the others fail.  The store is empty at first, and each folder comes before its subfolders. -/
theorem fill_eq (s : SnapshotStore) (t : FileTree) (jobs : List Job) (folder : Place) (time : Instant)
    (hclosed : t.Closed)
    (hroot : t.locate true (s.root.join ".") = .ok (.found folder (.folder time)))
    (hempty : ∀ p ∈ t.nodes, folder <+: p.1 → p.1 = folder) (hjobs : ParentsFirst [] jobs)
    (hfits : ∀ j ∈ jobs, j.snapshot.Fits) :
    (s.fill t jobs).2 = jobs.filter (fun j => ¬ s.HasMirror j.names) ∧
      ∀ j ∈ jobs, s.HasMirror j.names → s.read (s.fill t jobs).1 j.rel = j.snapshot := by
  have hnothing : ∀ place node, place ≠ [] → t.node? (folder ++ place) ≠ some node := by
    intro place node hplace hnode
    have hself := hempty _ (mem_nodes_of_node? hnode) (List.prefix_append folder place)
    exact hplace (by simpa using hself)
  have hfilled : s.Filled folder [] t :=
    ⟨hclosed, ⟨time, hroot⟩, by simp, by simp,
      fun place node hplace hnode => absurd hnode (hnothing place node hplace), by simp, by simp⟩
  exact hfilled.fill hjobs hfits

/-- A store in the folder `i`. -/
def sample : SnapshotStore := ⟨⟨"i"⟩⟩

/-- A disk on which the folder `i` is empty. -/
def emptyDisk : FileTree :=
  { nodes := [([], .folder .epoch), ([.text "i"], .folder .epoch)], current := [], clock := .epoch }

/-- A snapshot with a stamp, to be written for the folder of some names. -/
def jobAt (names : List String) (millis : Int64) : Job :=
  ⟨names, { Snapshot.empty with stamp := some millis }⟩

/-- Three snapshots are written and read back, one of them for a folder with a name like that of a
file of the store. -/
theorem fill_of_three_folders :
    let jobs := [jobAt [] 1000, jobAt ["a"] 2000, jobAt ["a", "index.bin.old"] 3000]
    (sample.fill emptyDisk jobs).2 = [] ∧
      ∀ j ∈ jobs, sample.read (sample.fill emptyDisk jobs).1 j.rel = j.snapshot := by
  intro jobs
  have hmirror : ∀ j ∈ jobs, sample.HasMirror j.names := by decide +kernel
  obtain ⟨hfailed, hread⟩ := fill_eq sample emptyDisk jobs [.text "i"] .epoch (by decide) rfl
    (by decide) (by decide +kernel) (by decide +kernel)
  refine ⟨?_, fun j hj => hread j hj (hmirror j hj)⟩
  rw [hfailed, List.filter_eq_nil_iff]
  exact fun j hj => by simpa using hmirror j hj

/-- A folder with the very name of a file of the store gets no snapshot there, although the root of
the store is an empty folder: writing it fails, and nothing is read back. -/
theorem fill_with_a_folder_index_bin :
    let jobs := [jobAt [] 5000, jobAt [binaryName] 6000]
    emptyDisk.Closed ∧
      emptyDisk.locate true (sample.root.join ".") = .ok (.found [.text "i"] (.folder .epoch)) ∧
      (∀ p ∈ emptyDisk.nodes, [.text "i"] <+: p.1 → p.1 = [.text "i"]) ∧
      ParentsFirst [] jobs ∧ (∀ j ∈ jobs, j.snapshot.Fits) ∧
      (sample.fill emptyDisk jobs).2 = [jobAt [binaryName] 6000] ∧
      sample.read (sample.fill emptyDisk jobs).1 (jobAt [binaryName] 6000).rel = .empty := by
  refine ⟨by decide, rfl, by decide, ?_, ?_, ?_, ?_⟩ <;> decide +kernel

end SnapshotStore
end Disk
end AlbumIndex
