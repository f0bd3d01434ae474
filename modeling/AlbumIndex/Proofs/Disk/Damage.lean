import AlbumIndex.Proofs.Disk.Making
import AlbumIndex.Proofs.Disk.Work

/-!
# A damaged file and none

Two disks are twins if they differ at one place only, where one of them has a file that is no
snapshot and the other one has nothing.  The paths of one lead where those of the other lead, but for
those to this place, and those that would go on behind it.  No snapshot is read through either, and
whatever can be made or written on the disk with the damaged file can be made or written on the
other one.  What is written to the place makes the two disks one.

## Main definitions

* `FileTree.without` — the tree without what is at a place.
* `FileTree.Twins` — two disks that differ by a damaged file.
* `FileTree.Agree` — what following a path gives on the one and on the other.

## Main results

* `FileTree.Twins.locate` — paths on the one disk and on the other.
* `FileTree.Twins.makeFolders`, `FileTree.Twins.write` — **what can be done on the disk with the
  damaged file can be done on its twin.**
* `SnapshotStore.read_of_twins`, `SnapshotStore.write_of_twins` — the same snapshots are read, and
  after a snapshot is written the disks are twins still.
-/

namespace AlbumIndex
namespace Disk

theorem FilePath.steps_ne_nil (p : FilePath) : p.steps ≠ [] := by
  simp [steps, Text.pieces_ne_nil]

/-- A file whose bytes are no snapshot. -/
def FileNode.IsDamaged (node : FileNode) : Prop :=
  ∃ bytes time, node = .file bytes time ∧ Snapshot.decode? bytes = none

namespace FileTree

variable {t t' u u' : FileTree} {place q : Place} {node : FileNode} {p : FilePath}

/-! ### Taking a place away -/

/-- The tree without what is at a place.  What lies below it stays. -/
def without (t : FileTree) (place : Place) : FileTree :=
  { t with nodes := t.nodes.filter fun (q, _) => q ≠ place }

theorem mem_without {entry : Place × FileNode} :
    entry ∈ (t.without place).nodes ↔ entry ∈ t.nodes ∧ entry.1 ≠ place := by
  simp [without]

theorem node?_without : (t.without place).node? q = if q = place then none else t.node? q := by
  have hkeep := lookup_filter (fun p => decide (p ≠ place)) q t.nodes
  by_cases hq : q = place
  · simpa [node?, without, hq] using hkeep
  · simpa [node?, without, hq] using hkeep

@[simp] theorem node?_without_self : (t.without place).node? place = none := by
  rw [node?_without, if_pos rfl]

theorem node?_without_of_ne (hq : q ≠ place) : (t.without place).node? q = t.node? q := by
  rw [node?_without, if_neg hq]

/-- What was put to a place goes with it. -/
theorem without_put (t : FileTree) (place : Place) (node : FileNode) :
    (t.put place node).without place = t.without place := by
  suffices ∀ nodes : List (Place × FileNode),
      (putNode place node nodes).filter (fun (q, _) => q ≠ place) =
        nodes.filter fun (q, _) => q ≠ place from
    congrArg (fun nodes => { t with nodes := nodes }) (this t.nodes)
  intro nodes
  induction nodes with
  | nil => simp [putNode]
  | cons entry nodes ih =>
    obtain ⟨p, n⟩ := entry
    unfold putNode
    by_cases hp : p = place
    · simp [hp]
    · rw [if_neg hp, List.filter_cons, List.filter_cons, ih]

theorem WellFormed.without (ht : t.WellFormed) (place : Place) : (t.without place).WellFormed :=
  ⟨ht.places.sublist (List.Sublist.map _ List.filter_sublist),
    fun entry hentry => ht.names entry (mem_without.1 hentry).1⟩

/-- Nothing lies in what is no folder, so it can be taken away. -/
theorem Closed.without (ht : t.Closed) (hfile : ∀ time, t.node? place ≠ some (.folder time)) :
    (t.without place).Closed := by
  rw [closed_iff] at ht ⊢
  intro front name node hnode
  rw [node?_without] at hnode
  split at hnode
  · cases hnode
  · obtain ⟨time, hfront⟩ := ht front name node hnode
    have hne : front ≠ place := fun h => hfile time (h ▸ hfront)
    exact ⟨time, by rw [node?_without_of_ne hne, hfront]⟩

/-- A file is taken away by its path, if that leads to no link. -/
theorem remove_eq_without (ht : t.Closed) {bytes : List UInt8} {time : Calendar.Instant}
    (hlocate : t.locate false p = .ok (.found place (.file bytes time))) :
    t.remove p = t.without place := by
  have hnode := node?_of_locate hlocate
  unfold remove without
  rw [hlocate]
  dsimp only
  congr 1
  refine List.filter_congr fun entry hentry => ?_
  rw [Bool.eq_iff_iff]
  simp only [Bool.not_eq_true', List.isPrefixOf_iff_prefix, Bool.eq_false_iff, ne_eq, decide_not,
    decide_eq_true_eq]
  constructor
  · rintro hout rfl
    exact hout (List.prefix_refl _)
  · rintro hne ⟨rest, hrest⟩
    have hbelow : rest ≠ [] := by
      rintro rfl
      exact hne (by rw [← hrest, List.append_nil])
    obtain ⟨node, hsome⟩ := exists_node?_of_mem hentry
    rw [← hrest] at hsome
    obtain ⟨_, hfolder⟩ := ht.folder hbelow hsome
    rw [hnode] at hfolder
    cases hfolder

/-! ### Making sure of folders -/

/-- A folder has been made sure of if it was made now or was there. -/
theorem ensureFolder_eq_none (h : (t.ensureFolder p).2 = none) :
    (∃ u, t.makeFolder p = .ok u) ∨ t.isFolder p = true := by
  unfold ensureFolder at h
  split at h
  · next u hmake => exact Or.inl ⟨u, hmake⟩
  · refine Or.inr (Decidable.byContradiction fun hnot => ?_)
    dsimp only at h
    rw [if_neg hnot] at h
    cases h

theorem makeMissing_cons {around : List FilePath} (h : t.makeFolder p ≠ .error .notFound) :
    t.makeMissing (p :: around) = t.ensureFolder p := by
  rw [makeMissing]
  split
  · next hfail => exact absurd hfail h
  · rfl

/-! ### Twins -/

/-- Two disks that differ at one place at most, where the first has a damaged file and the second
has nothing. -/
structure Twins (place : Place) (t t' : FileTree) : Prop where
  current : t'.current = t.current
  clock : t'.clock = t.clock
  closed : t.Closed
  others : ∀ q, q ≠ place → t'.node? q = t.node? q
  here : t'.node? place = t.node? place ∨
    (∃ node, t.node? place = some node ∧ node.IsDamaged) ∧ t'.node? place = none

/-- What following a path gives on a disk and on its twin. -/
inductive Agree (place : Place) : Except Trouble Target → Except Trouble Target → Prop where
  /-- The same. -/
  | same (found : Except Trouble Target) : Agree place found found
  /-- The damaged file, and a missing name. -/
  | here {node : FileNode} (damaged : node.IsDamaged) :
    Agree place (.ok (.found place node)) (.ok (.missing place))
  /-- The path would go on behind the damaged file. -/
  | beyond : Agree place (.error .notFolder) (.error .notFound)

/-- Whatever is neither a file nor behind one is the same on both. -/
theorem Agree.eq {found found' : Except Trouble Target} (h : Agree place found found')
    (hfile : ∀ bytes time, found ≠ .ok (.found place (.file bytes time)))
    (hbeyond : found ≠ .error .notFolder) : found' = found := by
  cases h with
  | same => rfl
  | here damaged =>
    obtain ⟨bytes, time, rfl, -⟩ := damaged
    exact absurd rfl (hfile bytes time)
  | beyond => exact absurd rfl hbeyond

theorem Agree.found {found : Except Trouble Target} (h : Agree place found (.ok (.found q node))) :
    found = .ok (.found q node) := by
  cases h
  rfl

namespace Twins

/-- A disk and the same disk without its damaged file. -/
theorem of_without (ht : t.Closed) (hnode : t.node? place = some node) (hdamaged : node.IsDamaged) :
    Twins place t (t.without place) where
  current := rfl
  clock := rfl
  closed := ht
  others _ hq := node?_without_of_ne hq
  here := Or.inr ⟨⟨node, hnode, hdamaged⟩, node?_without_self⟩

/-- At each place the two disks have the same, or it is the place of the damaged file. -/
theorem node?_cases (h : Twins place t t') (q : Place) : t'.node? q = t.node? q ∨
    q = place ∧ (∃ bytes time, t.node? q = some (.file bytes time) ∧
      Snapshot.decode? bytes = none) ∧ t'.node? q = none := by
  by_cases hq : q = place
  · subst hq
    rcases h.here with hsame | ⟨⟨_, hnode, bytes, time, rfl, hdecode⟩, hnone⟩
    · exact Or.inl hsame
    · exact Or.inr ⟨rfl, ⟨bytes, time, hnode, hdecode⟩, hnone⟩
  · exact Or.inl (h.others q hq)

theorem node?_eq_of_folder (h : Twins place t t') {time : Calendar.Instant}
    (hfolder : t.node? q = some (.folder time)) : t'.node? q = some (.folder time) := by
  rcases h.node?_cases q with hsame | ⟨-, ⟨_, _, hfile, -⟩, -⟩
  · rw [hsame, hfolder]
  · rw [hfolder] at hfile
    cases hfile

theorem node?_eq_of_link (h : Twins place t t') {link : FilePath} :
    t'.node? q = some (.link link) ↔ t.node? q = some (.link link) := by
  rcases h.node?_cases q with hsame | ⟨-, ⟨_, _, hfile, -⟩, hnone⟩
  · rw [hsame]
  · rw [hfile, hnone]
    exact ⟨nofun, nofun⟩

/-- The folder around a folder is the same on both disks. -/
theorem node?_dropLast (h : Twins place t t') {time : Calendar.Instant}
    (hfolder : t.node? q = some (.folder time)) : t'.node? q.dropLast = t.node? q.dropLast := by
  rcases List.eq_nil_or_concat q with rfl | ⟨front, name, rfl⟩
  · rw [List.dropLast_nil, h.node?_eq_of_folder hfolder, hfolder]
  · rw [List.concat_eq_append] at hfolder ⊢
    obtain ⟨_, hfront⟩ := closed_iff.1 h.closed front name _ hfolder
    rw [List.dropLast_concat, h.node?_eq_of_folder hfront, hfront]

/-! ### Paths -/

variable {through : Bool}

theorem walk (h : Twins place t t') {follow follow' : Place → List Step → Except Trouble Target}
    (hfollow : ∀ base steps, steps ≠ [] → Agree place (follow base steps) (follow' base steps))
    {steps : List Step} {start : Place} (hstart : steps ≠ [] ∨ t'.node? start = t.node? start) :
    Agree place (t.walk through follow steps start) (t'.walk through follow' steps start) := by
  induction steps generalizing start with
  | nil =>
    simp only [FileTree.walk, hstart.resolve_left (not_not_intro rfl)]
    exact .same _
  | cons step rest ih =>
    rcases h.node?_cases start with hsame | ⟨-, ⟨_, _, hfile, -⟩, hnone⟩
    · unfold FileTree.walk
      rw [hsame]
      cases hnode : t.node? start with
      | none => exact .same _
      | some node =>
        cases node with
        | folder time =>
          cases step with
          | here => exact ih (Or.inr hsame)
          | up => exact ih (Or.inr (h.node?_dropLast hnode))
          | into name =>
            dsimp only
            split
            · exact .same _
            · rcases h.node?_cases (start ++ [.text name]) with
                hchild | ⟨hplace, ⟨bytes, modified, hfile, hdecode⟩, hnone⟩
              · rw [hchild]
                split
                · split <;> exact .same _
                · split
                  · exact .same _
                  · split
                    · exact .same _
                    · exact hfollow _ _ (List.append_ne_nil_of_left_ne_nil (FilePath.steps_ne_nil _) _)
                · exact ih (Or.inr hchild)
              · -- the way ends at the damaged file, or would go on behind it
                rw [hnone, hfile]
                cases rest with
                | nil =>
                  simp only [FileTree.walk, hfile, List.isEmpty_nil, ↓reduceIte]
                  exact hplace ▸ .here ⟨bytes, modified, rfl, hdecode⟩
                | cons step rest =>
                  simp only [FileTree.walk, hfile, List.isEmpty_cons, Bool.false_eq_true, ↓reduceIte]
                  exact .beyond
        | _ => exact .same _
    · simp only [FileTree.walk, hfile, hnone]
      exact .beyond

theorem walkLinks (h : Twins place t t') {links : Nat} {steps : List Step} {start : Place}
    (hsteps : steps ≠ []) : Agree place (t.walkLinks through links start steps)
      (t'.walkLinks through links start steps) := by
  induction links generalizing steps start with
  | zero => exact h.walk (fun _ _ _ => .same _) (Or.inl hsteps)
  | succ links ih => exact h.walk (fun _ _ => ih) (Or.inl hsteps)

/-- **A path on a disk and on its twin.** -/
theorem locate (h : Twins place t t') (through : Bool) (p : FilePath) :
    Agree place (t.locate through p) (t'.locate through p) := by
  unfold FileTree.locate
  rw [h.current]
  split
  · exact .same _
  · split
    · exact .same _
    · split
      · exact .same _
      · exact h.walkLinks p.steps_ne_nil

theorem isFolder_eq (h : Twins place t t') (p : FilePath) : t'.isFolder p = t.isFolder p := by
  rw [Bool.eq_iff_iff, isFolder_iff, isFolder_iff]
  have hagree := h.locate true p
  refine exists_congr fun folder => exists_congr fun time => ⟨fun hfound => ?_, fun hfound => ?_⟩
  · rw [hfound] at hagree
    exact hagree.found
  · rw [hfound] at hagree
    exact hagree.eq nofun nofun

/-! ### Changes -/

/-- The same node put to the same place of both disks. -/
theorem put (h : Twins place t t') (q : Place) (node : FileNode) (hclosed : (t.put q node).Closed) :
    Twins place (t.put q node) (t'.put q node) where
  current := h.current
  clock := h.clock
  closed := hclosed
  others other hother := by rw [node?_put, node?_put, h.others other hother]
  here := by
    rw [node?_put, node?_put]
    split
    · exact Or.inl rfl
    · exact h.here

/-- A folder that is made on the disk with the damaged file is made on its twin. -/
theorem makeFolder (h : Twins place t t') (hmade : t.makeFolder p = .ok u) :
    ∃ u', t'.makeFolder p = .ok u' ∧ Twins place u u' := by
  have hclosed := h.closed.makeFolder hmade
  have hagree := h.locate false (if p.trimmed.text = "" then p else p.trimmed)
  rcases hlocate : t.locate false (if p.trimmed.text = "" then p else p.trimmed) with
    cause | ⟨q, node⟩ | q
  · rw [makeFolder_eq hlocate] at hmade
    cases hmade
  · rw [makeFolder_eq hlocate] at hmade
    cases hmade
  · rw [hlocate] at hagree
    rw [makeFolder_eq hlocate] at hmade
    cases hmade
    refine ⟨_, makeFolder_eq (hagree.eq nofun nofun), ?_⟩
    rw [h.clock]
    exact h.put q _ hclosed

/-- Where a folder cannot be made for want of the one around it, it cannot be made on the twin. -/
theorem makeFolder_notFound (h : Twins place t t') (hfail : t.makeFolder p = .error .notFound) :
    t'.makeFolder p = .error .notFound := by
  have hagree := h.locate false (if p.trimmed.text = "" then p else p.trimmed)
  rcases hlocate : t.locate false (if p.trimmed.text = "" then p else p.trimmed) with
    cause | ⟨q, node⟩ | q
  · rw [hlocate] at hagree
    rw [makeFolder_eq hlocate] at hfail
    cases hfail
    exact makeFolder_eq (hagree.eq nofun nofun)
  · rw [makeFolder_eq hlocate] at hfail
    cases hfail
  · rw [makeFolder_eq hlocate] at hfail
    cases hfail

theorem ensureFolder (h : Twins place t t') (hmade : (t.ensureFolder p).2 = none) :
    (t'.ensureFolder p).2 = none ∧ Twins place (t.ensureFolder p).1 (t'.ensureFolder p).1 := by
  rcases ensureFolder_eq_none hmade with ⟨u, hmake⟩ | hfolder
  · obtain ⟨u', hmake', htwins⟩ := h.makeFolder hmake
    simp only [FileTree.ensureFolder, hmake, hmake', true_and]
    exact htwins
  · have hfolder' := (h.isFolder_eq p).trans hfolder
    simp only [FileTree.ensureFolder, makeFolder_of_isFolder hfolder,
      makeFolder_of_isFolder hfolder', hfolder', ↓reduceIte, true_and]
    exact h

/-- The folders of a row of paths that are made on the disk with the damaged file are made on its
twin. -/
theorem makeMissing (h : Twins place t t') {paths : List FilePath}
    (hmade : (t.makeMissing paths).2 = none) :
    (t'.makeMissing paths).2 = none ∧
      Twins place (t.makeMissing paths).1 (t'.makeMissing paths).1 := by
  induction paths with
  | nil => exact ⟨rfl, h⟩
  | cons p around ih =>
    by_cases hmissing : t.makeFolder p = .error .notFound
    · -- the folders around are made first
      rw [FileTree.makeMissing, hmissing] at hmade
      rw [FileTree.makeMissing, FileTree.makeMissing, hmissing, h.makeFolder_notFound hmissing]
      rcases hfirst : t.makeMissing around with ⟨u, _ | cause⟩
      · rw [hfirst] at hmade ih
        obtain ⟨hdone, htwins⟩ := ih rfl
        rcases hfirst' : t'.makeMissing around with ⟨u', trouble⟩
        rw [hfirst'] at hdone htwins
        obtain rfl : trouble = none := hdone
        exact htwins.ensureFolder hmade
      · rw [hfirst] at hmade
        cases hmade
    · rw [makeMissing_cons hmissing] at hmade ⊢
      obtain ⟨hdone, htwins⟩ := h.ensureFolder hmade
      have hmissing' : t'.makeFolder p ≠ .error .notFound := fun hfail => by
        rcases ensureFolder_eq_none hdone with ⟨u, hmake⟩ | hfolder
        · rw [hmake] at hfail
          cases hfail
        · rw [makeFolder_of_isFolder hfolder] at hfail
          cases hfail
      rw [makeMissing_cons hmissing']
      exact ⟨hdone, htwins⟩

theorem makeFolders (h : Twins place t t') (hmade : (t.makeFolders p).2 = none) :
    (t'.makeFolders p).2 = none ∧ Twins place (t.makeFolders p).1 (t'.makeFolders p).1 :=
  h.makeMissing hmade

/-- **What is written on the disk with the damaged file is written on its twin.** -/
theorem write (h : Twins place t t') {bytes : List UInt8} (hwritten : t.write p bytes = .ok u) :
    ∃ u', t'.write p bytes = .ok u' ∧ Twins place u u' := by
  have hclosed := h.closed.write hwritten
  have hagree := h.locate true p
  unfold FileTree.write at hwritten ⊢
  split at hwritten
  · next q old time hlocate =>
    cases hwritten
    rw [hlocate] at hagree
    have hput := h.put q _ hclosed
    rw [← h.clock] at hput ⊢
    generalize t'.locate true p = found' at hagree ⊢
    cases hagree with
    | same => exact ⟨_, rfl, hput⟩
    | here => exact ⟨_, rfl, hput⟩
  · next q time hlocate =>
    cases hwritten
    rw [hlocate] at hagree
    rw [hagree.eq nofun nofun]
    exact ⟨_, rfl, h⟩
  · cases hwritten
  · cases hwritten
  · next q hlocate =>
    cases hwritten
    rw [hlocate] at hagree
    rw [hagree.eq nofun nofun]
    have hput := h.put q _ hclosed
    rw [← h.clock] at hput ⊢
    exact ⟨_, rfl, hput⟩
  · cases hwritten

end Twins
end FileTree

/-! ### Snapshots -/

namespace SnapshotStore

open FileTree

variable {s : SnapshotStore} {t t' : FileTree} {place : Place} {rel : String}

/-- **On both disks the same snapshots are read**: the damaged one is as good as none. -/
theorem read_of_twins (h : Twins place t t') (rel : String) : s.read t' rel = s.read t rel := by
  have hagree := h.locate true (s.binaryFile rel)
  unfold read FileTree.read stat
  generalize t.locate true (s.binaryFile rel) = found at hagree ⊢
  generalize t'.locate true (s.binaryFile rel) = found' at hagree ⊢
  cases hagree with
  | same => rfl
  | here damaged =>
    obtain ⟨bytes, time, rfl, hdecode⟩ := damaged
    simp only [hdecode, Option.getD_none]
  | beyond => rfl

theorem writeFile_of_twins (h : Twins place t t') {p : FilePath} {bytes : Bytes}
    (hwritten : (writeFile t p bytes).2 = none) :
    (writeFile t' p bytes).2 = none ∧
      Twins place (writeFile t p bytes).1 (writeFile t' p bytes).1 := by
  unfold writeFile at hwritten ⊢
  cases hwrite : t.write p bytes with
  | ok u =>
    obtain ⟨u', hwrite', htwins⟩ := h.write hwrite
    rw [hwrite']
    exact ⟨rfl, htwins⟩
  | error cause =>
    rw [hwrite] at hwritten
    cases hwritten

/-- **A snapshot that is written on the disk with the damaged file is written on its twin**, and the
disks are twins afterwards. -/
theorem write_of_twins (h : Twins place t t') {snapshot : Snapshot}
    (hwritten : (s.write t rel snapshot).2 = none) :
    (s.write t' rel snapshot).2 = none ∧
      Twins place (s.write t rel snapshot).1 (s.write t' rel snapshot).1 := by
  unfold write at hwritten ⊢
  rcases hfolders : t.makeFolders (s.folder rel) with ⟨t₁, _ | cause⟩
  · obtain ⟨hmade, htwins⟩ := h.makeFolders (p := s.folder rel) (by rw [hfolders])
    rcases hfolders' : t'.makeFolders (s.folder rel) with ⟨t₁', trouble⟩
    rw [hfolders'] at hmade htwins
    obtain rfl : trouble = none := hmade
    rw [hfolders] at hwritten htwins
    dsimp only at hwritten htwins ⊢
    rcases hbinary : writeFile t₁ (s.binaryFile rel) snapshot.encode with ⟨t₂, _ | e⟩
    · have hmade : (writeFile t₁ (s.binaryFile rel) snapshot.encode).2 = none := by rw [hbinary]
      obtain ⟨hmade, htwins⟩ := writeFile_of_twins htwins hmade
      rcases hbinary' : writeFile t₁' (s.binaryFile rel) snapshot.encode with ⟨t₂', trouble⟩
      rw [hbinary'] at hmade htwins
      obtain rfl : trouble = none := hmade
      rw [hbinary] at hwritten htwins
      exact writeFile_of_twins htwins hwritten
    · rw [hbinary] at hwritten
      cases hwritten
  · rw [hfolders] at hwritten
    cases hwritten

/-- After a snapshot is written, its path leads to a file or to a device. -/
theorem found_of_write {snapshot : Snapshot} (hwritten : (s.write t rel snapshot).2 = none) :
    ∃ q node, (s.write t rel snapshot).1.locate true (s.binaryFile rel) = .ok (.found q node) := by
  unfold write at hwritten ⊢
  rcases hfolders : t.makeFolders (s.folder rel) with ⟨t₁, _ | cause⟩
  · rw [hfolders] at hwritten
    dsimp only at hwritten ⊢
    rcases hbinary : writeFile t₁ (s.binaryFile rel) snapshot.encode with ⟨t₂, _ | e⟩
    · obtain ⟨q, node, hfound, -⟩ := write_eq_put (writeFile_eq.1 hbinary)
      obtain ⟨_, hkeeps⟩ := keeps_writeFile t₂ (s.jsonFile rel) snapshot.json.pretty.toUTF8.data.toList
      obtain ⟨node', hfound', -⟩ := hkeeps.locate_found hfound
      exact ⟨q, node', hfound'⟩
    · rw [hbinary] at hwritten
      cases hwritten
  · rw [hfolders] at hwritten
    cases hwritten

theorem Unlinked.of_twins (hunlinked : s.Unlinked t) (h : Twins place t t') : s.Unlinked t' := by
  intro folder time hroot rest link hrest hlink
  have hroot' := (hroot ▸ h.locate true (s.root.join ".")).found
  exact hunlinked folder time hroot' rest link hrest (h.node?_eq_of_link.1 hlink)

end SnapshotStore
end Disk
end AlbumIndex
