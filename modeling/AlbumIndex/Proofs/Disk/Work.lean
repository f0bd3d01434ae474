import AlbumIndex.Proofs.Disk.Mirror
import AlbumIndex.Proofs.Disk.Places

/-!
# Work on snapshots

Writing a snapshot is done in pieces: folders are made on the way to it, and bytes are put into its
two files.  Any piece may fail, and nobody says how far the work gets or what bytes a file is left
with.  But whatever becomes of it, the work touches only what it is about: folders that were not
there, and the two files of its own path.  So a snapshot reads the same before and after any work on
the snapshots of other paths, in any order and however much of it is done.

A link below the root of the store could give two paths one file.  And a root that is not there yet
might come to lead to a folder that was there all the time, as `new/../old` does once `new` is made;
then the snapshots in that folder come to light.

## Main definitions

* `SnapshotStore.Piece`, `SnapshotStore.Work` — pieces of the work on snapshots.
* `SnapshotStore.Worked` — what such work leaves.
* `SnapshotStore.Unlinked`, `SnapshotStore.Steady` — there are no links below the root, and it comes
  to lead to no other old folder.
* `SnapshotStore.PlainAhead` — there are only files and folders wherever it comes to lead.

## Main results

* `SnapshotStore.work_write` — a write is work, whether it succeeds or not.
* `SnapshotStore.Work.worked` — **work touches only what it is about.**
* `SnapshotStore.Work.read_eq` — **work on other paths leaves a snapshot as it is.**
* `SnapshotStore.Work.plain` — where there were only files and folders, work leaves nothing else.
* `SnapshotStore.steady_of_folder`, `SnapshotStore.steady_of_missing` — a root that leads to a folder
  is steady, and so is one that is missing in a folder.
-/

namespace AlbumIndex
namespace Disk

open FileTree

/-! ### Pieces of work -/

namespace FileTree

variable {t t' : FileTree}

/-- A file that was written is found, and it was put where it is found; what is written to a device
changes nothing. -/
theorem write_eq_put {p : FilePath} {bytes : List UInt8} (h : t.write p bytes = .ok t') :
    ∃ place node, t'.locate true p = .ok (.found place node) ∧
      (t' = t ∨ t' = t.put place (.file bytes t.clock) ∧ node = .file bytes t.clock) := by
  unfold FileTree.write at h
  split at h
  · next place old time hlocate =>
    cases h
    have hkeeps : Keeps [place] t (t.put place (.file bytes t.clock)) :=
      .put_alike (node?_of_locate hlocate) trivial
    exact ⟨_, _, hkeeps.locate hlocate (node?_put_self _ _) nofun, Or.inr ⟨rfl, rfl⟩⟩
  · next hlocate => cases h; exact ⟨_, _, hlocate, Or.inl rfl⟩
  · cases h
  · cases h
  · next place hlocate =>
    cases h
    have hkeeps := Keeps.put_missing (node?_of_locate_missing hlocate) (.file bytes t.clock)
    exact ⟨_, _, hkeeps.locate hlocate (node?_put_self _ _) nofun, Or.inr ⟨rfl, rfl⟩⟩
  · cases h

/-- A folder that is made is put where a name was missing. -/
theorem makeFolder_eq_put {p : FilePath} (h : t.makeFolder p = .ok t') :
    ∃ place, t' = t.put place (.folder t.clock) ∧ t.node? place = none := by
  unfold FileTree.makeFolder at h
  dsimp only at h
  split at h
  · cases h
  · next place hlocate => cases h; exact ⟨place, rfl, node?_of_locate_missing hlocate⟩
  · cases h

end FileTree

namespace SnapshotStore

variable {s : SnapshotStore} {t t' t'' : FileTree} {paths : String → Prop} {rel : String}

/-- A path of names. -/
def IsRel (rel : String) : Prop := ∃ names, (∀ n ∈ names, IsName n) ∧ rel = relOf names

/-- A piece of the work of writing the snapshot of a path. -/
inductive Piece (s : SnapshotStore) (rel : String) (t t' : FileTree) : Prop where
  /-- A folder on the way to the snapshot is made. -/
  | folder {p : FilePath} (around : p ∈ (s.folder rel).ancestors) (made : t.makeFolder p = .ok t')
  /-- Some bytes are put into one of its files. -/
  | file {p : FilePath} {bytes : List UInt8} (own : p = s.binaryFile rel ∨ p = s.jsonFile rel)
    (written : t.write p bytes = .ok t')

/-- Work on the snapshots of some paths: any pieces of it in any order. -/
inductive Work (s : SnapshotStore) (paths : String → Prop) (t : FileTree) : FileTree → Prop where
  | none : Work s paths t t
  | more {t' t'' : FileTree} {rel : String} (before : Work s paths t t') (mem : paths rel)
    (piece : Piece s rel t' t'') : Work s paths t t''

namespace Work

theorem trans (h : Work s paths t t') (h' : Work s paths t' t'') : Work s paths t t'' := by
  induction h' with
  | none => exact h
  | more _ mem piece ih => exact ih.more mem piece

theorem mono {more : String → Prop} (h : Work s paths t t') (hsub : ∀ rel, paths rel → more rel) :
    Work s more t t' := by
  induction h with
  | none => exact .none
  | more _ mem piece ih => exact ih.more (hsub _ mem) piece

end Work

theorem work_writeFile {p : FilePath} (own : p = s.binaryFile rel ∨ p = s.jsonFile rel)
    (bytes : List UInt8) (h : Work s (· = rel) t t') :
    Work s (· = rel) t (writeFile t' p bytes).1 := by
  unfold writeFile
  split
  · next hwritten => exact h.more rfl (.file own hwritten)
  · exact h

/-- **A write is work**, whether it succeeds or not. -/
theorem work_write (s : SnapshotStore) (t : FileTree) (rel : String) (snapshot : Snapshot) :
    Work s (· = rel) t (s.write t rel snapshot).1 := by
  have hfolders : Work s (· = rel) t (t.makeFolders (s.folder rel)).1 :=
    makeFolders_induction .none fun haround hmade h => h.more rfl (.folder haround hmade)
  unfold write
  split
  · next h => rw [h] at hfolders; exact hfolders
  · next t₁ h =>
    rw [h] at hfolders
    have hbinary := work_writeFile (Or.inl rfl) snapshot.encode hfolders
    split
    · next h₁ => rw [h₁] at hbinary; exact hbinary
    · next t₂ h₁ =>
      rw [h₁] at hbinary
      exact work_writeFile (Or.inr rfl) _ hbinary

/-! ### What work leaves -/

/-- What work leaves at a place that it has changed: a folder where nothing was, or one of the files
of its paths. -/
inductive Left (s : SnapshotStore) (paths : String → Prop) (t t' : FileTree) (place : Place) :
    FileNode → Prop where
  | folder {rel : String} {time : Calendar.Instant} (mem : paths rel)
    (new : t.node? place = none) : Left s paths t t' place (.folder time)
  | file {rel : String} {p : FilePath} {bytes : List UInt8} {time : Calendar.Instant}
    (mem : paths rel) (own : p = s.binaryFile rel ∨ p = s.jsonFile rel)
    (leads : t'.locate true p = .ok (.found place (.file bytes time))) :
    Left s paths t t' place (.file bytes time)

/-- What work on the snapshots of some paths leaves of a disk. -/
structure Worked (s : SnapshotStore) (paths : String → Prop) (t t' : FileTree) : Prop where
  /-- Whatever was there is there, of the same kind. -/
  keeps : ∃ changed, Keeps changed t t'
  /-- What is new or changed is what the work was about. -/
  left : ∀ place node, t'.node? place = some node → t.node? place ≠ some node →
    Left s paths t t' place node

theorem Piece.keeps (h : Piece s rel t t') : ∃ changed, Keeps changed t t' := by
  cases h with
  | folder _ made => exact ⟨[], .makeFolder made⟩
  | file _ written =>
    obtain ⟨_, -, hkeeps, -⟩ := write_eq_ok written
    exact ⟨_, hkeeps⟩

namespace Worked

/-- What was left stays so while a piece more is done. -/
theorem left_piece (h : Worked s paths t t') (mem : paths rel) (piece : Piece s rel t' t'')
    {place : Place} {node : FileNode} (hnode : t''.node? place = some node)
    (hnew : t'.node? place ≠ some node) : Left s paths t t'' place node := by
  obtain ⟨_, hkeeps⟩ := h.keeps
  cases piece with
  | folder _ made =>
    obtain ⟨place', rfl, hmissing⟩ := makeFolder_eq_put made
    rw [node?_put] at hnode
    split at hnode
    · next hsame =>
      subst hsame
      cases hnode
      refine .folder mem ?_
      cases hbefore : t.node? place with
      | none => rfl
      | some old =>
        obtain ⟨_, hkept, -⟩ := hkeeps.node _ _ hbefore
        rw [hmissing] at hkept
        cases hkept
    · exact absurd hnode hnew
  | file own written =>
    obtain ⟨place', _, hleads, rfl | ⟨hput, rfl⟩⟩ := write_eq_put written
    · exact absurd hnode hnew
    · rw [hput, node?_put] at hnode
      split at hnode
      · next hsame =>
        subst hsame
        cases hnode
        exact .file mem own hleads
      · exact absurd hnode hnew

theorem piece (h : Worked s paths t t') (mem : paths rel) (piece : Piece s rel t' t'') :
    Worked s paths t t'' := by
  obtain ⟨changed, hkeeps⟩ := h.keeps
  obtain ⟨changed', hkeeps'⟩ := piece.keeps
  refine ⟨⟨_, hkeeps.trans hkeeps'⟩, fun place node hnode hne => ?_⟩
  by_cases hbefore : t'.node? place = some node
  · cases h.left place node hbefore hne with
    | folder mem new => exact .folder mem new
    | file mem own leads => exact .file mem own (hkeeps'.locate leads hnode nofun)
  · exact h.left_piece mem piece hnode hbefore

/-- Work makes no links. -/
theorem link (h : Worked s paths t t') {place : Place} {link : FilePath}
    (hlink : t'.node? place = some (.link link)) : t.node? place = some (.link link) := by
  refine Decidable.byContradiction fun hne => ?_
  cases h.left place _ hlink hne

end Worked

/-- **Work touches only what it is about.** -/
theorem Work.worked (h : Work s paths t t') : Worked s paths t t' := by
  induction h with
  | none => exact ⟨⟨[], .refl t⟩, fun _ _ hnode hne => absurd hnode hne⟩
  | more _ mem piece ih => exact ih.piece mem piece

theorem Work.closed (h : Work s paths t t') (ht : t.Closed) : t'.Closed := by
  induction h with
  | none => exact ht
  | more _ _ piece ih =>
    cases piece with
    | folder _ made => exact ih.makeFolder made
    | file _ written => exact ih.write written

theorem Work.wellFormed (h : Work s paths t t') (ht : t.WellFormed) : t'.WellFormed := by
  induction h with
  | none => exact ht
  | more _ _ piece ih =>
    cases piece with
    | folder _ made => exact ih.makeFolder made
    | file _ written => exact ih.write written

/-- Work puts new places behind the old ones. -/
theorem Work.places (h : Work s paths t t') :
    ∃ more, t'.nodes.map Prod.fst = t.nodes.map Prod.fst ++ more := by
  have hput : ∀ (u : FileTree) place node, ∃ more,
      (u.put place node).nodes.map Prod.fst = u.nodes.map Prod.fst ++ more := by
    intro u place node
    rw [put, map_fst_putNode]
    split
    · exact ⟨[], (List.append_nil _).symm⟩
    · exact ⟨[place], rfl⟩
  induction h with
  | none => exact ⟨[], (List.append_nil _).symm⟩
  | @more u u' _ _ _ piece ih =>
    obtain ⟨new, hnew⟩ : ∃ new, u'.nodes.map Prod.fst = u.nodes.map Prod.fst ++ new := by
      cases piece with
      | folder _ made =>
        obtain ⟨place, rfl, -⟩ := makeFolder_eq_put made
        exact hput u place _
      | file _ written =>
        obtain ⟨place, node, -, rfl | ⟨rfl, -⟩⟩ := write_eq_put written
        · exact ⟨[], (List.append_nil _).symm⟩
        · exact hput u place _
    obtain ⟨more, hmore⟩ := ih
    exact ⟨more ++ new, by rw [hnew, hmore, List.append_assoc]⟩

/-! ### Where the root leads -/

/-- There are no links below the root of the store. -/
def Unlinked (s : SnapshotStore) (t : FileTree) : Prop :=
  ∀ folder time, t.locate true (s.root.join ".") = .ok (.found folder (.folder time)) →
    t.UnlinkedBelow folder

/-- Whatever work is done on snapshots, the root of the store comes to lead to no other folder that
was there before. -/
def Steady (s : SnapshotStore) (t : FileTree) : Prop :=
  ∀ t', Work s IsRel t t' → ∀ folder time,
    t'.locate true (s.root.join ".") = .ok (.found folder (.folder time)) →
    (∃ time', t.locate true (s.root.join ".") = .ok (.found folder (.folder time'))) ∨
      t.node? folder = none

/-- A root that leads to a folder is steady. -/
theorem steady_of_folder {folder : Place} {time : Calendar.Instant}
    (hroot : t.locate true (s.root.join ".") = .ok (.found folder (.folder time))) : s.Steady t := by
  intro t' hwork folder' time' hroot'
  obtain ⟨_, hkeeps⟩ := hwork.worked.keeps
  obtain ⟨_, hkept⟩ := hkeeps.locate_folder hroot
  rw [hkept] at hroot'
  cases hroot'
  exact Or.inl ⟨time, hroot⟩

/-- A root that is missing in its folder is steady. -/
theorem steady_of_missing {place : Place} (hroot : t.locate true s.root = .ok (.missing place)) :
    s.Steady t := by
  intro t' hwork folder time hdot
  obtain ⟨_, hkeeps⟩ := hwork.worked.keeps
  have hmissing := node?_of_locate_missing hroot
  have hfound := (locate_of_locate_dot true (locate_eq_ok_iff.1 hroot).2.1 hdot).eq
  refine Or.inr ?_
  suffices folder = place from this ▸ hmissing
  cases hnode : t'.node? place with
  | some node =>
    have hlink : ∀ q, node = .link q → t.node? place = some (.link q) := by
      rintro q rfl
      exact hwork.worked.link hnode
    have hled := hkeeps.locate hroot hnode hlink
    rw [hfound] at hled
    cases hled
    rfl
  | none =>
    -- were there a folder at the missing name, the root would lead there and to the old folder
    have hput := Keeps.put_missing hnode (.folder time)
    have hled := (hkeeps.trans hput).locate hroot (node?_put_self place (.folder time)) nofun
    obtain ⟨_, hled', -⟩ := hput.locate_found hfound
    rw [hled] at hled'
    cases hled'
    rfl

/-- Where there were no links, work leaves none. -/
theorem Work.unlinked (h : Work s paths t t') (hpaths : ∀ rel, paths rel → IsRel rel)
    (ht : t.Closed) (hunlinked : s.Unlinked t) (hsteady : s.Steady t) : s.Unlinked t' := by
  intro folder time hroot rest link hrest hlink
  have hbefore := h.worked.link hlink
  rcases hsteady t' (h.mono hpaths) folder time hroot with ⟨time', hroot'⟩ | hnew
  · exact hunlinked folder time' hroot' rest link hrest hbefore
  · obtain ⟨_, hfolder⟩ := ht.folder hrest hbefore
    rw [hnew] at hfolder
    cases hfolder

/-- Wherever the root of the store leads, or comes to lead when work is done on snapshots, there are
only files and folders. -/
def PlainAhead (s : SnapshotStore) (t : FileTree) : Prop :=
  ∀ t', Work s IsRel t t' → ∀ folder time,
    t'.locate true (s.root.join ".") = .ok (.found folder (.folder time)) → t.PlainBelow folder

/-- A steady root, below which there are only files and folders, comes to lead to nothing else. -/
theorem plainAhead_of_steady (ht : t.Closed) (hplain : s.Plain t) (hsteady : s.Steady t) :
    s.PlainAhead t := by
  intro t' hwork folder time hroot place node hnode hprefix hne
  rcases hsteady t' hwork folder time hroot with ⟨time', hroot'⟩ | hnew
  · exact hplain folder time' hroot' place node hnode hprefix hne
  · obtain ⟨rest, rfl⟩ := hprefix
    rw [ht.missing_below hnew rest] at hnode
    cases hnode

/-- Where there were only files and folders, work leaves nothing else. -/
theorem Work.plain (h : Work s paths t t') (hpaths : ∀ rel, paths rel → IsRel rel)
    (hplain : s.PlainAhead t) : s.Plain t' := by
  intro folder time hroot place node hnode hprefix hne
  by_cases hsame : t.node? place = some node
  · exact hplain t' (h.mono hpaths) folder time hroot place node hsame hprefix hne
  · cases h.worked.left place node hnode hsame <;> rfl

/-! ### Reading after work -/

/-- The snapshot that a node holds. -/
def snapshotIn : FileNode → Snapshot
  | .file bytes _ => (Snapshot.decode? bytes).getD .empty
  | .device _ => (Snapshot.decode? []).getD .empty
  | .folder _ | .link _ => .empty

theorem read_of_found {place : Place} {node : FileNode}
    (h : t.locate true (s.binaryFile rel) = .ok (.found place node)) :
    s.read t rel = snapshotIn node := by
  unfold read FileTree.read stat
  rw [h]
  cases node <;> rfl

theorem read_of_not_found
    (h : ∀ place node, t.locate true (s.binaryFile rel) ≠ .ok (.found place node)) :
    s.read t rel = .empty := by
  unfold read FileTree.read stat
  cases hlocate : t.locate true (s.binaryFile rel) with
  | error cause => rfl
  | ok target =>
    cases target with
    | found place node => exact absurd hlocate (h place node)
    | missing place => rfl

/-- The file of one path is none of those of another one. -/
theorem Left.not_binary {names : List String} (hpaths : ∀ rel, paths rel → IsRel rel)
    (hother : ¬ paths (relOf names)) (ht : t'.Closed)
    {folder : Place} {time stamp : Calendar.Instant} {bytes : List UInt8}
    (hroot : t'.locate true (s.root.join ".") = .ok (.found folder (.folder time)))
    (hunlinked : t'.UnlinkedBelow folder) :
    ¬ Left s paths t t' (folder ++ (names ++ [binaryName]).map Name.text) (.file bytes stamp) := by
  intro hleft
  cases hleft with
  | file mem own leads =>
    obtain ⟨names', hnames', rfl⟩ := hpaths _ mem
    have hclash : ∀ name, IsName name → t'.locate true (s.root.join (relOf (names' ++ [name]))) =
        .ok (.found (folder ++ (names ++ [binaryName]).map Name.text) (.file bytes stamp)) →
        names = names' ∧ binaryName = name := fun name hname hled =>
      places_inj.1 ((locate_join_found_iff ht (forall_isName_concat hnames' hname) (by simp) hroot
        hunlinked).1 hled).2.1
    rcases own with rfl | rfl
    · rw [binaryFile, join_folder hnames' isName_binaryName] at leads
      exact hother ((hclash _ isName_binaryName leads).1 ▸ mem)
    · rw [jsonFile, join_folder hnames' isName_jsonName] at leads
      exact absurd (hclash _ isName_jsonName leads).2 (by decide)

/-- **Work on other paths leaves a snapshot as it is.** -/
theorem Work.read_eq (h : Work s paths t t') (hpaths : ∀ rel, paths rel → IsRel rel)
    (ht : t.Closed) (hunlinked : s.Unlinked t) (hsteady : s.Steady t) (hrel : IsRel rel)
    (hother : ¬ paths rel) : s.read t' rel = s.read t rel := by
  obtain ⟨names, hnames, rfl⟩ := hrel
  have hbinary := forall_isName_concat hnames isName_binaryName
  have ht' := h.closed ht
  obtain ⟨_, hkeeps⟩ := h.worked.keeps
  -- a file that was found is still found
  have hfound : ∀ place node, t.locate true (s.binaryFile (relOf names)) = .ok (.found place node) →
      ∃ node', t'.locate true (s.binaryFile (relOf names)) = .ok (.found place node') :=
    fun place node hlocate => (hkeeps.locate_found hlocate).imp fun _ h => h.1
  by_cases hnow : ∃ place node,
      t'.locate true (s.binaryFile (relOf names)) = .ok (.found place node)
  · obtain ⟨place, node, hnow⟩ := hnow
    rw [read_of_found hnow]
    have hnow' := hnow
    rw [binaryFile, join_folder hnames isName_binaryName] at hnow'
    obtain ⟨folder, time, hroot, -⟩ := locate_join hbinary (by simp) hnow'
    have hbelow := h.unlinked hpaths ht hunlinked hsteady folder time hroot
    obtain ⟨hlimits, rfl, hnode⟩ :=
      (locate_join_found_iff ht' hbinary (by simp) hroot hbelow).1 hnow'
    by_cases hsame : t.node? (folder ++ (names ++ [binaryName]).map Name.text) = some node
    · -- the folder of the root was there, since there was something below it
      obtain ⟨_, hroot'⟩ : ∃ time', t.locate true (s.root.join ".") =
          .ok (.found folder (.folder time')) := by
        refine (hsteady t' (h.mono hpaths) folder time hroot).resolve_right fun hnew => ?_
        obtain ⟨_, hfolder⟩ := ht.folder (by simp) hsame
        rw [hnew] at hfolder
        cases hfolder
      have hbefore := (locate_join_found_iff ht hbinary (by simp) hroot'
        (hunlinked _ _ hroot')).2 ⟨hlimits, rfl, hsame⟩
      rw [← join_folder hnames isName_binaryName] at hbefore
      exact (read_of_found hbefore).symm
    · have hleft := h.worked.left _ _ hnode hsame
      cases hleft' : node with
      | folder stamp =>
        rw [hleft'] at hleft
        obtain ⟨-, hnew⟩ := hleft
        refine (read_of_not_found fun place old hlocate => ?_).symm
        obtain ⟨_, hkept⟩ := hfound place old hlocate
        rw [hnow] at hkept
        cases hkept
        rw [node?_of_locate hlocate] at hnew
        cases hnew
      | file bytes stamp =>
        rw [hleft'] at hleft
        exact absurd hleft (Left.not_binary hpaths hother ht' hroot hbelow)
      | link q => rw [hleft'] at hleft; cases hleft
      | device stamp => rw [hleft'] at hleft; cases hleft
  · have hnow : ∀ place node,
        t'.locate true (s.binaryFile (relOf names)) ≠ .ok (.found place node) :=
      fun place node hlocate => hnow ⟨place, node, hlocate⟩
    rw [read_of_not_found hnow]
    refine (read_of_not_found fun place node hlocate => ?_).symm
    obtain ⟨node', hkept⟩ := hfound place node hlocate
    exact hnow place node' hkept

end SnapshotStore
end Disk
end AlbumIndex
