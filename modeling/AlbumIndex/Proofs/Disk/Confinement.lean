import AlbumIndex.Proofs.Disk.Making
import AlbumIndex.Proofs.Disk.Work

/-!
# Where work on snapshots stays

The folders that are made on the way to a snapshot are those of its path and of the paths around it,
and these are beginnings of one text.  So a folder that is made is the root of the snapshots itself
or lies below it: all that lies on the way to the root is there before the root is.  The files of a
snapshot lie below the root as well.  Where the root leads to one place and there are no links below
it, work on snapshots changes nothing elsewhere.

## Main definitions

* `FilePath.Fronts` — a path that another one begins with, up to a slash.
* `FileTree.AgreeBut` — two disks that are the same but for some places.
* `SnapshotStore.RootAt` — the place that the root of a store leads to.
* `SnapshotStore.WorksIn` — work on snapshots changes nothing but some places.

## Main results

* `FilePath.fronts_of_mem_ancestors` — the paths around a path are beginnings of it.
* `SnapshotStore.Piece.put_below` — a piece of work puts something below the root.
* `SnapshotStore.worksIn_of_rootAt` — **work on snapshots stays below the root.**
-/

namespace AlbumIndex
namespace Disk

open Calendar Text

/-! ### Beginnings of paths -/

namespace FilePath

variable {p q u : FilePath}

/-- The path is another one, or what that one begins with up to a slash. -/
def Fronts (q p : FilePath) : Prop := q = p ∨ ∃ more : String, p.text = q.text ++ "/" ++ more

theorem Fronts.trans (h : u.Fronts q) (h' : q.Fronts p) : u.Fronts p := by
  rcases h' with rfl | ⟨more', h'⟩
  · exact h
  · rcases h with rfl | ⟨more, h⟩
    · exact Or.inr ⟨more', h'⟩
    · exact Or.inr ⟨more ++ "/" ++ more', by rw [h', h]; simp only [String.append_assoc]⟩

/-- The steps of a path go on from those of its beginning. -/
theorem Fronts.steps (h : q.Fronts p) : ∃ rest, p.steps = q.steps ++ rest := by
  rcases h with rfl | ⟨more, h⟩
  · exact ⟨[], (List.append_nil _).symm⟩
  · obtain rfl : p = ⟨q.text ++ "/" ++ more⟩ := eq_of_text h
    exact ⟨_, steps_append q.text more⟩

theorem Fronts.isAbsolute (h : q.Fronts p) (hne : q.text ≠ "") : q.isAbsolute = p.isAbsolute := by
  rcases h with rfl | ⟨more, h⟩
  · rfl
  · obtain ⟨c, cs, hcs⟩ := List.exists_cons_of_ne_nil (mt String.toList_eq_nil_iff.1 hne)
    simp [FilePath.isAbsolute, h, hcs]

theorem fronts_trimmed (p : FilePath) : p.trimmed.Fronts p := by
  obtain ⟨k, hchars⟩ := p.toList_eq_trimmed
  cases k with
  | zero => exact Or.inl (eq_of_text (String.toList_inj.1 (by simpa using hchars.symm)))
  | succ k =>
    refine Or.inr ⟨String.ofList (List.replicate k '/'), String.toList_inj.1 ?_⟩
    rw [hchars]
    simp [List.replicate_succ]

theorem skipEmpty_suffix (cs : List Char) : skipEmpty cs <:+ cs := by
  induction cs using skipEmpty.induct with
  | case1 cs ih => exact skipEmpty.eq_1 cs ▸ ih.trans (List.suffix_cons _ _)
  | case2 cs ih => exact skipEmpty.eq_2 cs ▸ ih.trans (List.suffix_cons _ _)
  | case3 cs hslash hdot => simp [skipEmpty.eq_3 cs hslash hdot]

/-- What is left of a reversed text from a slash on has a slash right before it. -/
theorem exists_slash_of_skipEmpty (cs : List Char) :
    ∃ more, '/' :: cs = more ++ '/' :: skipEmpty cs := by
  suffices h : (∃ more, '/' :: cs = more ++ '/' :: skipEmpty cs) ∧
      ∀ rest, cs = '/' :: rest → ∃ more, '/' :: rest = more ++ '/' :: skipEmpty rest from h.1
  induction cs using skipEmpty.induct with
  | case1 cs ih =>
    obtain ⟨more, hmore⟩ := ih.1
    refine ⟨⟨'/' :: more, by rw [skipEmpty.eq_1, hmore]; rfl⟩, fun rest hrest => ?_⟩
    cases hrest
    exact ⟨more, hmore⟩
  | case2 cs ih =>
    obtain ⟨more, hmore⟩ := ih.2 cs rfl
    refine ⟨⟨'/' :: '.' :: more, ?_⟩, fun rest hrest => by cases hrest⟩
    rw [skipEmpty.eq_2, skipEmpty.eq_1, hmore]
    rfl
  | case3 cs hslash hdot =>
    exact ⟨⟨[], by rw [skipEmpty.eq_3 cs hslash hdot]; rfl⟩, fun rest hrest => (hslash rest hrest).elim⟩

/-- The path around a path has no name, or the path goes on from it. -/
theorem fronts_of_parent? (h : p.parent? = some q) : q.parent? = none ∨ q.Fronts p := by
  unfold parent? at h
  split at h
  · cases h
  · next hskip _ =>
    obtain ⟨dropped, hdropped⟩ := skipEmpty_suffix p.text.toList.reverse
    obtain ⟨name, hname⟩ := List.dropWhile_suffix (l := skipEmpty p.text.toList.reverse) (· ≠ '/')
    dsimp only at h
    split at h
    · cases h; exact Or.inl rfl
    · next rest _ hnot =>
      cases h
      cases hbefore : (skipEmpty p.text.toList.reverse).dropWhile (· ≠ '/') with
      | nil => exact Or.inl rfl
      | cons c tail =>
        -- the names end at a slash
        obtain rfl : c = '/' := by
          have := List.head?_dropWhile_not (· ≠ '/') (skipEmpty p.text.toList.reverse)
          rw [hbefore] at this
          simpa using this
        obtain ⟨more, hmore⟩ := exists_slash_of_skipEmpty tail
        refine Or.inr (Or.inr ⟨String.ofList (dropped ++ name ++ more).reverse, ?_⟩)
        rw [hbefore] at hname
        have hchars := congrArg List.reverse
          (hdropped.symm.trans (congrArg (dropped ++ ·) (hname.symm.trans (congrArg (name ++ ·) hmore))))
        rw [List.reverse_reverse] at hchars
        apply String.toList_inj.1
        rw [hchars, skipEmpty.eq_1]
        simp

theorem fronts_of_mem_ancestors (h : q ∈ p.ancestors) : q.Fronts p := by
  unfold ancestors at h
  generalize p.text.length + 1 = n at h
  induction n generalizing p with
  | zero => cases h
  | succ n ih =>
    unfold ancestorsWithin at h
    split at h
    · cases h
    · next around haround =>
      rcases List.mem_cons.1 h with rfl | h
      · exact Or.inl rfl
      · rcases fronts_of_parent? haround with hnone | hfronts
        · cases n with
          | zero => cases h
          | succ n => simp [ancestorsWithin, hnone] at h
        · exact (ih h).trans hfronts

end FilePath

namespace FileTree

variable {t t' : FileTree} {place : Place}

/-! ### Names that are missing -/

/-- A name that is missing at the end of a way is missing there if links are passed. -/
theorem walk_through_missing {follow follow' : Place → List Step → Except Trouble Target} {q : Place}
    (hfollow : ∀ place steps, follow place steps = .ok (.missing q) →
      follow' place steps = .ok (.missing q))
    {steps : List Step} (h : t.walk false follow steps place = .ok (.missing q)) :
    t.walk true follow' steps place = .ok (.missing q) := by
  induction steps generalizing place with
  | nil =>
    unfold walk at h
    split at h <;> cases h
  | cons step rest ih =>
    unfold walk at h
    split at h
    · next time hplace =>
      unfold walk
      rw [hplace]
      cases step with
      | here => exact ih h
      | up => exact ih h
      | into name =>
        dsimp only at h ⊢
        split at h
        · cases h
        · next hshort =>
          rw [if_neg hshort]
          split at h
          · exact h
          · next link _ =>
            split at h
            · cases h
            · split at h
              · cases h
              · next hempty =>
                simp only [Bool.not_true, Bool.and_false, Bool.false_eq_true, ↓reduceIte, hempty]
                exact hfollow _ _ h
          · exact ih h
    · cases h
    · cases h

theorem walkLinks_through_missing {links : Nat} {steps : List Step} {q : Place}
    (h : t.walkLinks false links place steps = .ok (.missing q)) :
    t.walkLinks true links place steps = .ok (.missing q) := by
  induction links generalizing place steps with
  | zero => exact walk_through_missing (fun _ _ hfail => by cases hfail) h
  | succ links ih => exact walk_through_missing (fun _ _ => ih) h

/-- If a way leads somewhere, a name can only be missing at its end. -/
theorem place_of_missing_front {links : Nat} {steps rest : List Step} {q : Place} {target : Target}
    (hfront : t.walkLinks false links place steps = .ok (.missing q))
    (h : t.walkLinks true links place (steps ++ rest) = .ok target) : target.place = q := by
  by_cases hrest : rest = []
  · rw [hrest, List.append_nil, walkLinks_through_missing hfront] at h
    cases h
    rfl
  · obtain ⟨folder, time, hfolder, -⟩ := walkLinks_append hrest h
    obtain ⟨_, _, hfound, -⟩ := walkLinks_of_here false hfolder
    rw [hfront] at hfound
    cases hfound

/-! ### Disks that are the same but for some places -/

/-- Two disks are the same but for some places. -/
structure AgreeBut (places : Place → Prop) (t t' : FileTree) : Prop where
  current : t'.current = t.current
  node : ∀ place, ¬ places place → t'.node? place = t.node? place

namespace AgreeBut

variable {places : Place → Prop} {t'' : FileTree}

theorem refl (t : FileTree) : AgreeBut places t t := ⟨rfl, fun _ _ => rfl⟩

theorem symm (h : AgreeBut places t t') : AgreeBut places t' t :=
  ⟨h.current.symm, fun q hq => (h.node q hq).symm⟩

theorem trans (h : AgreeBut places t t') (h' : AgreeBut places t' t'') : AgreeBut places t t'' :=
  ⟨h'.current.trans h.current, fun q hq => (h'.node q hq).trans (h.node q hq)⟩

theorem put (hplace : places place) (t : FileTree) (node : FileNode) :
    AgreeBut places t (t.put place node) :=
  ⟨rfl, fun q hq => node?_put_of_ne (by rintro rfl; exact hq hplace)⟩

end AgreeBut

/-- A file that was written was put where its path leads; what is written to a device changes
nothing. -/
theorem put_of_write {p : FilePath} {bytes : List UInt8} (h : t.write p bytes = .ok t') :
    ∃ target, t.locate true p = .ok target ∧
      (t' = t ∨ t' = t.put target.place (.file bytes t.clock)) := by
  unfold FileTree.write at h
  split at h
  · next hlocate => cases h; exact ⟨_, hlocate, Or.inr rfl⟩
  · next hlocate => cases h; exact ⟨_, hlocate, Or.inl rfl⟩
  · cases h
  · cases h
  · next hlocate => cases h; exact ⟨_, hlocate, Or.inr rfl⟩
  · cases h

/-- A folder that is made is put where the path, or its beginning without the slashes at the end,
finds a name missing. -/
theorem put_of_makeFolder {p : FilePath} (h : t.makeFolder p = .ok t') :
    ∃ u place, u.Fronts p ∧ t.locate false u = .ok (.missing place) ∧
      t' = t.put place (.folder t.clock) := by
  have hmade := makeFolder_eq (t := t) (p := p) rfl
  rw [h] at hmade
  split at hmade
  · cases hmade
  · next place hlocate =>
    refine ⟨_, place, ?_, hlocate, Except.ok.inj hmade⟩
    split
    · exact Or.inl rfl
    · exact p.fronts_trimmed
  · cases hmade

end FileTree

/-! ### The root of the snapshots -/

namespace SnapshotStore

open FileTree

variable {s : SnapshotStore} {t t' : FileTree} {root place : Place} {rel : String}

/-- The root of the snapshots leads to a place, be it missing there or not. -/
def RootAt (s : SnapshotStore) (t : FileTree) (root : Place) : Prop :=
  ∃ target, t.locate true s.root = .ok target ∧ target.place = root

/-- Where the beginning of a path below the root finds a name missing. -/
theorem prefix_of_fronts (hroot : s.RootAt t root) (hunlinked : t.UnlinkedBelow root)
    {names : List String} (hnames : ∀ n ∈ names, IsName n) (hne : names ≠ []) {u : FilePath}
    (hu : u.Fronts (s.root.join (relOf names))) (hmissing : t.locate false u = .ok (.missing place)) :
    root <+: place := by
  obtain ⟨target, hlocate, rfl⟩ := hroot
  obtain ⟨-, hempty, -, hway⟩ := locate_eq_ok_iff.1 hmissing
  obtain ⟨-, hroot, -, hleads⟩ := locate_eq_ok_iff.1 hlocate
  rw [hu.isAbsolute hempty, FilePath.isAbsolute_join (head?_relOf_ne_slash hnames)] at hway
  obtain ⟨rest, hrest⟩ := hu.steps
  rw [FilePath.steps_join_relOf hnames hne] at hrest
  rcases List.append_eq_append_iff.1 hrest with ⟨more, hbelow, hsplit⟩ | ⟨more, habove, -⟩
  · by_cases hnil : more = []
    · -- the beginning is the root itself, but for a dot
      rw [hnil, List.append_nil] at hbelow
      rcases s.root.steps_eq_before hroot with hsteps | hsteps
      · rw [hsteps, ← hbelow, ← List.append_nil u.steps] at hleads
        exact (place_of_missing_front hway hleads) ▸ List.prefix_refl _
      · rw [hsteps, ← hbelow] at hleads
        exact (place_of_missing_front hway hleads) ▸ List.prefix_refl _
    · obtain ⟨front, others, -, rfl, -⟩ := List.map_eq_append_iff.1 hsplit
      rw [hbelow] at hway
      obtain ⟨folder, time, hfolder, follow, hwalk⟩ :=
        walkLinks_append hnil (walkLinks_through_missing hway)
      have hfound : target = .found folder (.folder time) := by
        rcases s.root.steps_eq_before hroot with hsteps | hsteps
        · rw [hsteps, (walkLinks_of_here true hfolder).eq] at hleads
          exact (Except.ok.inj hleads).symm
        · rw [hsteps, hfolder] at hleads
          exact (Except.ok.inj hleads).symm
      rw [hfound] at hunlinked ⊢
      rw [← List.append_nil folder] at hwalk
      obtain ⟨hplace, -⟩ := place_of_walk_stepsInto hunlinked hwalk
      rw [List.append_nil] at hplace
      exact ⟨front.map Name.text, hplace.symm⟩
  · rcases s.root.steps_eq_before hroot with hsteps | hsteps
    · rw [hsteps, habove] at hleads
      exact (place_of_missing_front hway hleads) ▸ List.prefix_refl _
    · rw [hsteps, habove, List.append_assoc] at hleads
      exact (place_of_missing_front hway hleads) ▸ List.prefix_refl _

/-- The same for the root itself. -/
theorem eq_of_fronts_root (hroot : s.RootAt t root) {u : FilePath} (hu : u.Fronts s.root)
    (hmissing : t.locate false u = .ok (.missing place)) : root = place := by
  obtain ⟨target, hlocate, rfl⟩ := hroot
  obtain ⟨-, hempty, -, hway⟩ := locate_eq_ok_iff.1 hmissing
  obtain ⟨-, -, -, hleads⟩ := locate_eq_ok_iff.1 hlocate
  obtain ⟨rest, hrest⟩ := hu.steps
  rw [hrest, ← hu.isAbsolute hempty] at hleads
  exact place_of_missing_front hway hleads

/-- **A piece of work puts something below the root**, if it changes anything. -/
theorem Piece.put_below (h : Piece s rel t t') (hrel : IsRel rel) (hroot : s.RootAt t root)
    (hunlinked : t.UnlinkedBelow root) :
    t' = t ∨ ∃ place node, t' = t.put place node ∧ root <+: place ∧ ∀ link, node ≠ .link link := by
  obtain ⟨names, hnames, rfl⟩ := hrel
  cases h with
  | folder around made =>
    obtain ⟨u, place, hu, hmissing, rfl⟩ := put_of_makeFolder made
    refine Or.inr ⟨place, _, rfl, ?_, fun link hlink => by cases hlink⟩
    have hfronts := hu.trans (FilePath.fronts_of_mem_ancestors around)
    by_cases hnil : names = []
    · rw [hnil, SnapshotStore.folder, relOf_nil, if_pos rfl] at hfronts
      exact eq_of_fronts_root hroot hfronts hmissing ▸ List.prefix_refl _
    · rw [SnapshotStore.folder, if_neg (mt (relOf_eq_empty_iff hnames).1 hnil)] at hfronts
      exact prefix_of_fronts hroot hunlinked hnames hnil hfronts hmissing
  | @file p bytes own written =>
    obtain ⟨target, hlocate, rfl | rfl⟩ := put_of_write written
    · exact Or.inl rfl
    · refine Or.inr ⟨target.place, _, rfl, ?_, fun link hlink => by cases hlink⟩
      obtain ⟨name, hname, rfl⟩ : ∃ name, IsName name ∧
          p = s.root.join (relOf (names ++ [name])) := by
        rcases own with rfl | rfl
        · exact ⟨binaryName, isName_binaryName, join_folder hnames isName_binaryName⟩
        · exact ⟨jsonName, isName_jsonName, join_folder hnames isName_jsonName⟩
      obtain ⟨folder, time, hdot, hbelow⟩ :=
        place_of_locate_join (forall_isName_concat hnames hname) (by simp) hlocate
      obtain ⟨found, hfound, rfl⟩ := hroot
      rw [(locate_of_locate_dot true (locate_eq_ok_iff.1 hfound).2.1 hdot).eq] at hfound
      cases hfound
      exact (hbelow hunlinked).1 ▸ List.prefix_append _ _

/-- What is put below the root leaves the root where it is. -/
theorem RootAt.put (h : s.RootAt t root) {node : FileNode} (hplace : root <+: place)
    (hkeeps : ∃ changed, Keeps changed t (t.put place node)) (hnode : ∀ link, node ≠ .link link)
    (hclosed : (t.put place node).Closed) : s.RootAt (t.put place node) root := by
  obtain ⟨target, hlocate, rfl⟩ := h
  obtain ⟨_, hkeeps⟩ := hkeeps
  obtain ⟨rest, rfl⟩ := hplace
  -- whatever was put, there is something at the root now
  obtain ⟨now, hnow⟩ : ∃ now, (t.put (target.place ++ rest) node).node? target.place = some now := by
    by_cases hnil : rest = []
    · exact ⟨node, by rw [hnil, List.append_nil, node?_put_self]⟩
    · exact (hclosed.folder hnil (node?_put_self _ node)).imp' FileNode.folder fun _ h => h
  refine ⟨_, hkeeps.locate hlocate hnow fun link hlink => ?_, rfl⟩
  rw [node?_put] at hnow
  split at hnow
  · cases hnow
    exact absurd hlink (hnode link)
  · rw [hnow, hlink]

/-- Work on snapshots changes nothing but some places. -/
def WorksIn (s : SnapshotStore) (t : FileTree) (places : Place → Prop) : Prop :=
  ∀ t', Work s IsRel t t' → AgreeBut places t t'

/-- **Work on snapshots stays below the root**, where the root leads to one place and there are no
links below it. -/
theorem worksIn_of_rootAt (hclosed : t.Closed) (hroot : s.RootAt t root)
    (hunlinked : t.UnlinkedBelow root) : s.WorksIn t (root <+: ·) := by
  intro t' hwork
  suffices h : AgreeBut (root <+: ·) t t' ∧ s.RootAt t' root ∧ t'.UnlinkedBelow root from h.1
  induction hwork with
  | none => exact ⟨.refl t, hroot, hunlinked⟩
  | more before mem piece ih =>
    obtain ⟨hagree, hroot', hunlinked'⟩ := ih
    have hafter := before.more mem piece
    have hunlinked'' : UnlinkedBelow _ root := fun rest link hrest hlink =>
      hunlinked rest link hrest (hafter.worked.link hlink)
    rcases piece.put_below mem hroot' hunlinked' with hsame | ⟨place, node, hput, hplace, hnode⟩
    · exact ⟨hsame ▸ hagree, hsame ▸ hroot', hunlinked''⟩
    · have hkeeps := piece.keeps
      have hclosed' := hafter.closed hclosed
      rw [hput] at hkeeps hclosed' hunlinked'' ⊢
      exact ⟨hagree.trans (.put hplace _ node), hroot'.put hplace hkeeps hnode hclosed', hunlinked''⟩

end SnapshotStore
end Disk
end AlbumIndex
