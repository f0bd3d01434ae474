import AlbumIndex.Proofs.Disk.Following
import AlbumIndex.Proofs.Snapshot.Format

/-!
# Snapshots side by side

The snapshots of a collection lie in one folder, each under the path of the folder it tells of.
Below that folder there should be nothing but files and folders: a link would give two paths one
file, and a device would forget what is written.  Where that is so, a snapshot that was written is
read back, and writing one leaves all others as they are.

## Main definitions

* `SnapshotStore.Plain` — there are only files and folders below the root of the store.
* `SnapshotStore.Holds` — the file of a path can be read and holds a snapshot.

## Main results

* `SnapshotStore.holds_of_write` — **what is written is read back.**
* `SnapshotStore.Holds.write` — **the snapshots of other paths stay.**
* `SnapshotStore.keeps_write`, `SnapshotStore.wellFormed_write` — a write leaves the rest of the disk.
-/

namespace AlbumIndex
namespace Disk

open FileTree

variable {t t' : FileTree} {changed : List Place}

/-! ### Writing one file -/

namespace FileTree

theorem Keeps.mono {more : List Place} (h : Keeps changed t t') (hsub : changed ⊆ more) :
    Keeps more t t' := by
  refine ⟨h.current, fun place node hnode => ?_⟩
  obtain ⟨node', hnode', halike, hsame⟩ := h.node place node hnode
  exact ⟨node', hnode', halike, fun hout => hsame fun hin => hout (hsub hin)⟩

/-- A file that was written has the bytes, and nothing else has changed.  What is written to a device
is lost. -/
theorem write_eq_ok {p : FilePath} {bytes : List UInt8} (h : t.write p bytes = .ok t') :
    ∃ target, t.locate true p = .ok target ∧ Keeps [target.place] t t' ∧
      ((∃ time, t'.node? target.place = some (.file bytes time)) ∨
        ∃ time, t.node? target.place = some (.device time)) := by
  unfold FileTree.write at h
  split at h
  · next place old time hlocate =>
    cases h
    exact ⟨_, hlocate, .put_alike (node?_of_locate hlocate) trivial,
      Or.inl ⟨_, node?_put_self place _⟩⟩
  · next place time hlocate =>
    cases h
    exact ⟨_, hlocate, (Keeps.refl t).mono (List.nil_subset _),
      Or.inr ⟨time, node?_of_locate hlocate⟩⟩
  · cases h
  · cases h
  · next place hlocate =>
    cases h
    exact ⟨_, hlocate, (Keeps.put_missing (node?_of_locate_missing hlocate) _).mono
      (List.nil_subset _), Or.inl ⟨_, node?_put_self place _⟩⟩
  · cases h

theorem read_of_locate_file {p : FilePath} {place : Place} {bytes : List UInt8}
    {time : Calendar.Instant} (h : t.locate true p = .ok (.found place (.file bytes time))) :
    t.read p = .ok bytes := by
  simp [FileTree.read, stat, h]

end FileTree

namespace SnapshotStore

variable {s : SnapshotStore} {names others : List String} {bytes : List UInt8}

/-! ### Files of the store -/

/-- Below the root of the store there are only files and folders. -/
def Plain (s : SnapshotStore) (t : FileTree) : Prop :=
  ∀ folder time, t.locate true (s.root.join ".") = .ok (.found folder (.folder time)) →
    t.PlainBelow folder

theorem plain_of_locate {folder : Place} {time : Calendar.Instant}
    (hroot : t.locate true (s.root.join ".") = .ok (.found folder (.folder time)))
    (h : ∀ p ∈ t.nodes, folder <+: p.1 → p.2.isPlain = true) : s.Plain t := by
  intro folder' time' hroot' place node hnode hprefix _
  rw [hroot] at hroot'
  cases hroot'
  exact h _ (mem_nodes_of_node? hnode) hprefix

theorem plain_of_forall_isPlain (s : SnapshotStore) (h : ∀ p ∈ t.nodes, p.2.isPlain = true) :
    s.Plain t :=
  fun _ _ _ _ _ hnode _ _ => h _ (mem_nodes_of_node? hnode)

theorem Plain.of_keeps (hplain : s.Plain t') (h : Keeps changed t t') : s.Plain t := by
  intro folder time hfolder place node hnode hprefix hne
  obtain ⟨time', hfolder'⟩ := h.locate_folder hfolder
  obtain ⟨after, hafter, halike, -⟩ := h.node place node hnode
  rw [halike.isPlain_eq]
  exact hplain folder time' hfolder' place after hafter hprefix hne

theorem isName_binaryName : IsName binaryName := by decide

theorem isName_jsonName : IsName jsonName := by decide

/-- The files of a path lie below the root under the names of the path and their own. -/
theorem join_folder (hnames : ∀ n ∈ names, IsName n) {name : String} (hname : IsName name) :
    (s.folder (relOf names)).join name = s.root.join (relOf (names ++ [name])) := by
  by_cases hnil : names = []
  · subst hnil
    simp [folder, relOf, joinRel]
  · rw [folder, if_neg (mt (relOf_eq_empty_iff hnames).1 hnil)]
    exact FilePath.join_relOf_join hnames hnil hname

/-- Places below one folder are told apart by their names. -/
theorem places_inj {folder : Place} {a b : String} :
    folder ++ (names ++ [a]).map Name.text = folder ++ (others ++ [b]).map Name.text ↔
      names = others ∧ a = b := by
  rw [List.append_cancel_left_eq, List.map_inj_right fun _ _ h => Name.text.inj h,
    List.append_singleton_inj]

/-- A file of the store lies where its names say. -/
structure FileAt (s : SnapshotStore) (t : FileTree) (names : List String) (bytes : List UInt8)
    (folder : Place) : Prop where
  root : ∃ time, t.locate true (s.root.join ".") = .ok (.found folder (.folder time))
  file : ∃ time, t.locate true (s.root.join (relOf names)) =
    .ok (.found (folder ++ names.map Name.text) (.file bytes time))

/-- The root of the store is where it was. -/
theorem FileAt.folder_eq {folder folder' : Place} {bytes' : List UInt8}
    (h : s.FileAt t names bytes folder) (hkeeps : Keeps changed t t')
    (h' : s.FileAt t' others bytes' folder') : folder = folder' := by
  obtain ⟨_, hroot⟩ := h.root
  obtain ⟨_, hkept⟩ := hkeeps.locate_folder hroot
  obtain ⟨_, hroot'⟩ := h'.root
  rw [hkept] at hroot'
  cases hroot'
  rfl

/-- A file stays as it is while other places change. -/
theorem FileAt.keeps {folder : Place} (h : s.FileAt t names bytes folder) (hkeeps : Keeps changed t t')
    (hout : folder ++ names.map Name.text ∉ changed) : s.FileAt t' names bytes folder := by
  obtain ⟨_, hroot⟩ := h.root
  obtain ⟨time, hfile⟩ := h.file
  obtain ⟨file', hfile', -, hsame⟩ := hkeeps.locate_found hfile
  rw [hsame hout] at hfile'
  exact ⟨hkeeps.locate_folder hroot, ⟨time, hfile'⟩⟩

theorem FileAt.read {folder : Place} (h : s.FileAt t names bytes folder) :
    t.read (s.root.join (relOf names)) = .ok bytes := by
  obtain ⟨_, hfile⟩ := h.file
  exact read_of_locate_file hfile

/-- No device lies where the names of a file lead. -/
theorem Plain.not_device {folder : Place} {time time' : Calendar.Instant} (hplain : s.Plain t)
    (hroot : t.locate true (s.root.join ".") = .ok (.found folder (.folder time)))
    (hne : names ≠ []) : t.node? (folder ++ names.map Name.text) ≠ some (.device time') := by
  intro hdevice
  have := hplain folder time hroot _ _ hdevice (List.prefix_append _ _) (by simpa using hne)
  cases this

/-- In a plain store, a file that was read lies where its names say. -/
theorem fileAt_of_read (hplain : s.Plain t) (hnames : ∀ n ∈ names, IsName n) (hne : names ≠ [])
    (h : t.read (s.root.join (relOf names)) = .ok bytes) :
    ∃ folder, s.FileAt t names bytes folder := by
  unfold FileTree.read stat at h
  cases hlocate : t.locate true (s.root.join (relOf names)) with
  | error cause => simp [hlocate] at h
  | ok target =>
    obtain ⟨folder, time, hroot, hplace⟩ := place_of_locate_join hnames hne hlocate
    have hplace := (hplace (hplain folder time hroot).unlinked).1
    cases target with
    | missing place => simp [hlocate] at h
    | found place node =>
      obtain rfl : place = _ := hplace
      cases node with
      | file old stamp =>
        simp only [hlocate, Except.ok.injEq] at h
        exact ⟨folder, ⟨time, hroot⟩, ⟨stamp, h ▸ hlocate⟩⟩
      | device stamp => exact absurd (node?_of_locate hlocate) (hplain.not_device hroot hne)
      | folder stamp => simp [hlocate] at h
      | link q => simp [hlocate] at h

/-- In a plain store, a file that was written lies where its names say, and nothing else has
changed. -/
theorem fileAt_of_write (hplain : s.Plain t') (hnames : ∀ n ∈ names, IsName n) (hne : names ≠ [])
    (h : t.write (s.root.join (relOf names)) bytes = .ok t') :
    ∃ folder, s.FileAt t' names bytes folder ∧ Keeps [folder ++ names.map Name.text] t t' := by
  obtain ⟨target, hlocate, hkeeps, hnode⟩ := write_eq_ok h
  have hbefore : s.Plain t := hplain.of_keeps hkeeps
  obtain ⟨folder, time, hroot, hplace⟩ := place_of_locate_join hnames hne hlocate
  have hplace := (hplace (hbefore folder time hroot).unlinked).1
  rw [hplace] at hnode hkeeps
  rcases hnode with ⟨stamp, hfile⟩ | ⟨stamp, hdevice⟩
  · have hfile' := hkeeps.locate hlocate (by rw [hplace]; exact hfile) fun q hq => by cases hq
    rw [hplace] at hfile'
    exact ⟨folder, ⟨hkeeps.locate_folder hroot, ⟨stamp, hfile'⟩⟩, hkeeps⟩
  · exact absurd hdevice (hbefore.not_device hroot hne)

/-! ### Writing a snapshot -/

theorem writeFile_eq {p : FilePath} : writeFile t p bytes = (t', none) ↔ t.write p bytes = .ok t' := by
  unfold writeFile
  cases t.write p bytes <;> simp

theorem keeps_writeFile (t : FileTree) (p : FilePath) (bytes : List UInt8) :
    ∃ changed, Keeps changed t (writeFile t p bytes).1 := by
  unfold writeFile
  split
  · next h =>
    obtain ⟨_, -, hkeeps, -⟩ := write_eq_ok h
    exact ⟨_, hkeeps⟩
  · exact ⟨[], .refl t⟩

/-- Whatever is there once the folder is made stays while the files are written. -/
theorem keeps_write_files (s : SnapshotStore) (t : FileTree) (rel : String) (snapshot : Snapshot) :
    ∃ changed, Keeps changed (t.makeFolders (s.folder rel)).1 (s.write t rel snapshot).1 := by
  unfold write
  split
  · next h => rw [h]; exact ⟨[], .refl _⟩
  · next t₁ h =>
    rw [h]
    obtain ⟨changed₁, hbinary⟩ := keeps_writeFile t₁ (s.binaryFile rel) snapshot.encode
    split
    · next h₁ => rw [h₁] at hbinary; exact ⟨_, hbinary⟩
    · next t₂ h₁ =>
      rw [h₁] at hbinary
      obtain ⟨changed₂, hjson⟩ := keeps_writeFile t₂ (s.jsonFile rel)
        snapshot.json.pretty.toUTF8.data.toList
      exact ⟨_, hbinary.trans hjson⟩

/-- A write leaves every place of the disk, whether it succeeds or not. -/
theorem keeps_write (s : SnapshotStore) (t : FileTree) (rel : String) (snapshot : Snapshot) :
    ∃ changed, Keeps changed t (s.write t rel snapshot).1 := by
  obtain ⟨_, hfiles⟩ := s.keeps_write_files t rel snapshot
  exact ⟨_, (Keeps.makeFolders t (s.folder rel)).trans hfiles⟩

theorem wellFormed_writeFile (ht : t.WellFormed) (p : FilePath) (bytes : List UInt8) :
    (writeFile t p bytes).1.WellFormed := by
  unfold writeFile
  split
  · next h => exact ht.write h
  · exact ht

theorem wellFormed_write (ht : t.WellFormed) (s : SnapshotStore) (rel : String)
    (snapshot : Snapshot) : (s.write t rel snapshot).1.WellFormed := by
  have hfolders := ht.makeFolders (s.folder rel)
  unfold write
  split
  · next h => rw [h] at hfolders; exact hfolders
  · next t₁ h =>
    rw [h] at hfolders
    have hbinary := wellFormed_writeFile hfolders (s.binaryFile rel) snapshot.encode
    split
    · next h₁ => rw [h₁] at hbinary; exact hbinary
    · next t₂ h₁ =>
      rw [h₁] at hbinary
      exact wellFormed_writeFile hbinary _ _

/-- A snapshot that was written in full: its file has the bytes, and only its two files have
changed. -/
theorem fileAt_of_write_eq_none (hplain : s.Plain t') (hnames : ∀ n ∈ names, IsName n)
    {snapshot : Snapshot} (h : s.write t (relOf names) snapshot = (t', none)) :
    ∃ folder, s.FileAt t' (names ++ [binaryName]) snapshot.encode folder ∧
      Keeps [folder ++ (names ++ [binaryName]).map Name.text,
        folder ++ (names ++ [jsonName]).map Name.text] t t' := by
  have hbinaryNames := forall_isName_concat hnames isName_binaryName
  have hjsonNames := forall_isName_concat hnames isName_jsonName
  have hfolders := Keeps.makeFolders t (s.folder (relOf names))
  unfold write at h
  split at h
  · cases h
  · next t₁ hmade =>
    rw [hmade] at hfolders
    split at h
    · cases h
    · next t₂ hbinary =>
      rw [writeFile_eq, binaryFile, join_folder hnames isName_binaryName] at hbinary
      rw [writeFile_eq, jsonFile, join_folder hnames isName_jsonName] at h
      obtain ⟨folder', hjson, hkeeps'⟩ := fileAt_of_write hplain hjsonNames (by simp) h
      obtain ⟨folder, hfile, hkeeps⟩ :=
        fileAt_of_write (hplain.of_keeps hkeeps') hbinaryNames (by simp) hbinary
      -- both files lie below the same folder, under different names
      obtain rfl := hfile.folder_eq hkeeps' hjson
      have hdifferent : folder ++ (names ++ [binaryName]).map Name.text ∉
          [folder ++ (names ++ [jsonName]).map Name.text] := by
        rw [List.mem_singleton, places_inj]
        exact fun h => absurd h.2 (by decide)
      exact ⟨folder, hfile.keeps hkeeps' hdifferent, (hfolders.trans hkeeps).trans hkeeps'⟩

/-! ### Snapshots that are held -/

/-- The file of a path can be read and holds a snapshot. -/
def Holds (s : SnapshotStore) (t : FileTree) (rel : String) (snapshot : Snapshot) : Prop :=
  ∃ bytes, t.read (s.binaryFile rel) = .ok bytes ∧ Snapshot.decode? bytes = some snapshot

theorem Holds.read_eq {rel : String} {snapshot : Snapshot} (h : s.Holds t rel snapshot) :
    s.read t rel = snapshot := by
  obtain ⟨bytes, hread, hdecode⟩ := h
  simp [read, hread, hdecode]

/-- A snapshot with a stamp has been read from a file. -/
theorem holds_of_stamp {rel : String} {millis : Int64} (h : (s.read t rel).stamp = some millis) :
    s.Holds t rel (s.read t rel) := by
  unfold read at h ⊢
  cases hread : t.read (s.binaryFile rel) with
  | error cause => simp [hread, Snapshot.empty] at h
  | ok bytes =>
    simp only [hread] at h ⊢
    cases hdecode : Snapshot.decode? bytes with
    | none => simp [hdecode, Snapshot.empty] at h
    | some snapshot => exact ⟨bytes, hread, hdecode⟩

/-- **What is written is read back.** -/
theorem holds_of_write (hplain : s.Plain t') (hnames : ∀ n ∈ names, IsName n) {snapshot : Snapshot}
    (hfits : snapshot.Fits) (h : s.write t (relOf names) snapshot = (t', none)) :
    s.Holds t' (relOf names) snapshot := by
  obtain ⟨folder, hfile, -⟩ := fileAt_of_write_eq_none hplain hnames h
  refine ⟨snapshot.encode, ?_, Snapshot.decode?_encode hfits⟩
  rw [binaryFile, join_folder hnames isName_binaryName]
  exact hfile.read

/-- **The snapshots of other paths stay.** -/
theorem Holds.write (hplain : s.Plain t') (hnames : ∀ n ∈ names, IsName n)
    (hothers : ∀ n ∈ others, IsName n) (hne : others ≠ names) {snapshot other : Snapshot}
    (h : s.write t (relOf names) snapshot = (t', none)) (hholds : s.Holds t (relOf others) other) :
    s.Holds t' (relOf others) other := by
  obtain ⟨bytes, hread, hdecode⟩ := hholds
  have hfileNames := forall_isName_concat hothers isName_binaryName
  rw [binaryFile, join_folder hothers isName_binaryName] at hread
  obtain ⟨folder, hwritten, hkeeps⟩ := fileAt_of_write_eq_none hplain hnames h
  obtain ⟨folder', hfile⟩ :=
    fileAt_of_read (hplain.of_keeps hkeeps) hfileNames (by simp) hread
  obtain rfl := hfile.folder_eq hkeeps hwritten
  have hout : folder' ++ (others ++ [binaryName]).map Name.text ∉
      [folder' ++ (names ++ [binaryName]).map Name.text,
        folder' ++ (names ++ [jsonName]).map Name.text] := by
    simp only [List.mem_cons, List.not_mem_nil, or_false, places_inj]
    rintro (⟨hsame, -⟩ | ⟨-, hname⟩)
    · exact hne hsame
    · exact absurd hname (by decide)
  refine ⟨bytes, ?_, hdecode⟩
  rw [binaryFile, join_folder hothers isName_binaryName]
  exact (hfile.keeps hkeeps hout).read

end SnapshotStore
end Disk
end AlbumIndex
