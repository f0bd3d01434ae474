import AlbumIndex.Proofs.Disk.Tree

/-!
# Paths on a changing disk

A tree that only grows, and in which files only change their bytes, keeps its paths: whatever a path
has led to, it goes on leading to.  That is so for every disk that snapshots are written on.

Below a folder without links, a path of names leads to the place with these names, and so two paths
lead to one place only if their names are the same.

## Main definitions

* `FileNode.Alike` — two nodes of one kind.
* `FileTree.Keeps` — a later state of a tree that has kept its places.
* `FileTree.PlainBelow`, `FileTree.UnlinkedBelow` — there are only files and folders, or no links,
  below a place.

## Main results

* `FileTree.Keeps.locate` — **what a path leads to stays there.**
* `FileTree.locate_join` — a path of names is followed from where the path before it leads.
* `FileTree.place_of_locate_join` — the place of a path of names below a folder without links.
-/

namespace AlbumIndex
namespace Disk

open Calendar

/-! ### Kinds of nodes -/

/-- Two nodes of one kind; links of one kind have the same target. -/
def FileNode.Alike : FileNode → FileNode → Prop
  | .file _ _, .file _ _ => True
  | .folder _, .folder _ => True
  | .link p, .link q => p = q
  | .device _, .device _ => True
  | _, _ => False

theorem FileNode.Alike.refl (node : FileNode) : node.Alike node := by
  cases node <;> simp [Alike]

theorem FileNode.Alike.trans {a b c : FileNode} (hab : a.Alike b) (hbc : b.Alike c) :
    a.Alike c := by
  cases a <;> cases b <;> cases c <;> simp_all [Alike]

/-- The node is a file or a folder. -/
def FileNode.isPlain : FileNode → Bool
  | .file _ _ | .folder _ => true
  | .link _ | .device _ => false

theorem FileNode.Alike.isPlain_eq {a b : FileNode} (h : a.Alike b) : a.isPlain = b.isPlain := by
  cases a <;> cases b <;> simp_all [Alike, isPlain]

namespace FileTree

/-- The place that a path leads to. -/
def Target.place : Target → Place
  | .found place _ | .missing place => place

/-! ### Trees that keep their places -/

/-- A later state of a tree: every place still has a node, of the same kind, and the same node but
for some places that have been changed. -/
structure Keeps (changed : List Place) (t t' : FileTree) : Prop where
  current : t'.current = t.current
  node : ∀ place node, t.node? place = some node →
    ∃ node', t'.node? place = some node' ∧ node.Alike node' ∧ (place ∉ changed → node' = node)

variable {t t' t'' : FileTree} {changed changed' : List Place}

namespace Keeps

theorem refl (t : FileTree) : Keeps [] t t :=
  ⟨rfl, fun _ node h => ⟨node, h, .refl node, fun _ => rfl⟩⟩

theorem trans (h : Keeps changed t t') (h' : Keeps changed' t' t'') :
    Keeps (changed ++ changed') t t'' := by
  refine ⟨h'.current.trans h.current, fun place node hnode => ?_⟩
  obtain ⟨node', hnode', halike, hsame⟩ := h.node place node hnode
  obtain ⟨node'', hnode'', halike', hsame'⟩ := h'.node place node' hnode'
  refine ⟨node'', hnode'', halike.trans halike', fun hout => ?_⟩
  rw [List.mem_append, not_or] at hout
  rw [hsame' hout.2, hsame hout.1]

theorem put_missing {place : Place} (h : t.node? place = none) (node : FileNode) :
    Keeps [] t (t.put place node) := by
  refine ⟨rfl, fun q old hold => ⟨old, ?_, .refl old, fun _ => rfl⟩⟩
  rw [node?_put_of_ne, hold]
  rintro rfl
  rw [h] at hold
  cases hold

theorem put_alike {place : Place} {old new : FileNode} (h : t.node? place = some old)
    (halike : old.Alike new) : Keeps [place] t (t.put place new) := by
  refine ⟨rfl, fun q node hnode => ?_⟩
  by_cases hq : q = place
  · subst hq
    rw [h] at hnode
    obtain rfl := Option.some.inj hnode
    exact ⟨new, node?_put_self q new, halike, fun hout => absurd (List.mem_singleton_self q) hout⟩
  · exact ⟨node, by rw [node?_put_of_ne hq, hnode], .refl node, fun _ => rfl⟩

theorem makeFolder {p : FilePath} (h : t.makeFolder p = .ok t') : Keeps [] t t' := by
  unfold FileTree.makeFolder at h
  dsimp only at h
  split at h
  · cases h
  · next hlocate => cases h; exact put_missing (node?_of_locate_missing hlocate) _
  · cases h

/-- New folders leave everything as it is. -/
theorem makeFolders (t : FileTree) (p : FilePath) : Keeps [] t (t.makeFolders p).1 :=
  makeFolders_induction (.refl t) fun _ made h => by simpa using h.trans (makeFolder made)

/-! ### Paths stay -/

variable {through : Bool} {target : Target} {node' : FileNode}

theorem walk (h : Keeps changed t t') {follow follow' : Place → List Step → Except Trouble Target}
    (hfollow : ∀ place steps, follow place steps = .ok target →
      follow' place steps = .ok (.found target.place node'))
    (hnode : t'.node? target.place = some node')
    (hlink : ∀ q, node' = .link q → t.node? target.place = some (.link q))
    {steps : List Step} {place : Place} (hwalk : t.walk through follow steps place = .ok target) :
    t'.walk through follow' steps place = .ok (.found target.place node') := by
  induction steps generalizing place with
  | nil =>
    unfold FileTree.walk at hwalk ⊢
    cases hplace : t.node? place with
    | none => simp [hplace] at hwalk
    | some node =>
      simp only [hplace, Except.ok.injEq] at hwalk
      subst hwalk
      simp only [Target.place] at hnode ⊢
      rw [hnode]
  | cons step rest ih =>
    unfold FileTree.walk at hwalk
    split at hwalk
    · next time hplace =>
      -- the folder is still there, so the step is taken as before
      obtain ⟨time', hplace'⟩ : ∃ time', t'.node? place = some (.folder time') := by
        obtain ⟨node, hkept, halike, -⟩ := h.node place _ hplace
        cases node <;> simp_all [FileNode.Alike]
      unfold FileTree.walk
      rw [hplace']
      cases step with
      | here => exact ih hwalk
      | up => exact ih hwalk
      | into name =>
        dsimp only at hwalk ⊢
        split at hwalk
        · cases hwalk
        · next hshort =>
          rw [if_neg hshort]
          split at hwalk
          · next hchild =>
            split at hwalk
            · next hend =>
              -- the name was missing; now there is a node, which is no link
              cases hwalk
              simp only [Target.place] at hnode hlink ⊢
              rw [hnode]
              obtain rfl : rest = [] := by simpa using hend
              cases node' with
              | link q => rw [hchild] at hlink; cases hlink q rfl
              | _ => simp [FileTree.walk, hnode]
            · cases hwalk
          · next link hchild =>
            obtain ⟨node, hkept, halike, -⟩ := h.node _ _ hchild
            obtain rfl : node = .link link := by cases node <;> simp_all [FileNode.Alike]
            rw [hkept]
            dsimp only
            split at hwalk
            · next hend =>
              cases hwalk
              simp only [Target.place] at hnode ⊢
              rw [hkept] at hnode
              obtain rfl := Option.some.inj hnode
              rw [if_pos hend]
            · next hend =>
              rw [if_neg hend]
              split at hwalk
              · cases hwalk
              · next hempty =>
                rw [if_neg hempty]
                exact hfollow _ _ hwalk
          · next node hnotLink hchild =>
            obtain ⟨node'', hkept, halike, -⟩ := h.node _ _ hchild
            rw [hkept]
            cases node'' with
            | link q => cases node <;> simp_all [FileNode.Alike]
            | _ => exact ih hwalk
    · cases hwalk
    · cases hwalk

theorem walkLinks (h : Keeps changed t t') (hnode : t'.node? target.place = some node')
    (hlink : ∀ q, node' = .link q → t.node? target.place = some (.link q))
    {links : Nat} {steps : List Step} {place : Place}
    (hwalk : t.walkLinks through links place steps = .ok target) :
    t'.walkLinks through links place steps = .ok (.found target.place node') := by
  induction links generalizing place steps with
  | zero => exact h.walk (fun _ _ hfail => by cases hfail) hnode hlink hwalk
  | succ links ih => exact h.walk (fun _ _ => ih) hnode hlink hwalk

/-- **What a path leads to stays there**: a node that was found, and one that was put where a name
was missing. -/
theorem locate (h : Keeps changed t t') {p : FilePath} (hlocate : t.locate through p = .ok target)
    (hnode : t'.node? target.place = some node')
    (hlink : ∀ q, node' = .link q → t.node? target.place = some (.link q)) :
    t'.locate through p = .ok (.found target.place node') := by
  rw [locate_eq_ok_iff] at hlocate ⊢
  rw [h.current]
  obtain ⟨hnull, hempty, hshort, hwalk⟩ := hlocate
  exact ⟨hnull, hempty, hshort, h.walkLinks hnode hlink hwalk⟩

theorem locate_found (h : Keeps changed t t') {p : FilePath} {place : Place} {node : FileNode}
    (hlocate : t.locate through p = .ok (.found place node)) :
    ∃ node', t'.locate through p = .ok (.found place node') ∧ node.Alike node' ∧
      (place ∉ changed → node' = node) := by
  have hnode := node?_of_locate hlocate
  obtain ⟨node', hnode', halike, hsame⟩ := h.node place node hnode
  refine ⟨node', h.locate hlocate hnode' fun q hq => ?_, halike, hsame⟩
  subst hq
  cases node <;> simp_all [FileNode.Alike, Target.place]

theorem locate_folder (h : Keeps changed t t') {p : FilePath} {folder : Place} {time : Instant}
    (hlocate : t.locate through p = .ok (.found folder (.folder time))) :
    ∃ time', t'.locate through p = .ok (.found folder (.folder time')) := by
  obtain ⟨node', hlocate', halike, -⟩ := h.locate_found hlocate
  cases node' with
  | folder time' => exact ⟨time', hlocate'⟩
  | _ => cases halike

end Keeps

/-! ### Paths of names -/

variable {target : Target} {names : List String}

/-- What a step does if more steps follow: it leads to another place, or to a link, or nowhere. -/
inductive Moves (t : FileTree) (step : Step) (place : Place) : Prop where
  | on (next : Place) (h : ∀ through follow rest, rest ≠ [] →
      t.walk through follow (step :: rest) place = t.walk through follow rest next)
  | link (base : Place) (steps : List Step) (h : ∀ through follow rest, rest ≠ [] →
      t.walk through follow (step :: rest) place = follow base (steps ++ rest))
  | nowhere (cause : Trouble) (h : ∀ through follow rest, rest ≠ [] →
      t.walk through follow (step :: rest) place = .error cause)

theorem moves (t : FileTree) (step : Step) (place : Place) : t.Moves step place := by
  cases hplace : t.node? place with
  | none => exact .nowhere .notFound fun _ _ _ _ => by simp [walk, hplace]
  | some node =>
    cases node with
    | folder time =>
      cases step with
      | here => exact .on place fun _ _ _ _ => by simp [walk, hplace]
      | up => exact .on place.dropLast fun _ _ _ _ => by simp [walk, hplace]
      | into name =>
        by_cases hlong : maxNameBytes < name.utf8ByteSize
        · exact .nowhere .nameTooLong fun _ _ _ _ => by simp [walk, hplace, hlong]
        · cases hchild : t.node? (place ++ [.text name]) with
          | none =>
            exact .nowhere .notFound fun _ _ _ hrest => by
              simp [walk, hplace, hlong, hchild, hrest]
          | some child =>
            cases child with
            | link target =>
              by_cases hempty : target.text = ""
              · exact .nowhere .notFound fun _ _ _ hrest => by
                  simp [walk, hplace, hlong, hchild, hempty, hrest]
              · exact .link (if target.isAbsolute then [] else place) target.steps
                  fun _ _ _ hrest => by simp [walk, hplace, hlong, hchild, hempty, hrest]
            | _ =>
              exact .on (place ++ [.text name]) fun _ _ _ _ => by
                simp [walk, hplace, hlong, hchild]
    | _ => exact .nowhere .notFolder fun _ _ _ _ => by simp [walk, hplace]

/-- Steps in two parts, the second of which goes on: the first part leads to a folder. -/
theorem walk_append {follow : Place → List Step → Except Trouble Target} {rest : List Step}
    (hrest : rest ≠ [])
    (hfollow : ∀ place steps, follow place (steps ++ rest) = .ok target →
      ∃ folder time, follow place (steps ++ [.here]) = .ok (.found folder (.folder time)) ∧
        ∃ follow', t.walk true follow' rest folder = .ok target)
    {steps : List Step} {place : Place} (h : t.walk true follow (steps ++ rest) place = .ok target) :
    ∃ folder time, t.walk true follow (steps ++ [.here]) place = .ok (.found folder (.folder time)) ∧
      ∃ follow', t.walk true follow' rest folder = .ok target := by
  induction steps generalizing place with
  | nil =>
    obtain ⟨time, hplace⟩ : ∃ time, t.node? place = some (.folder time) := by
      obtain ⟨step, others, rfl⟩ := List.exists_cons_of_ne_nil hrest
      rw [List.nil_append] at h
      unfold walk at h
      split at h
      · next time hplace => exact ⟨time, hplace⟩
      · cases h
      · cases h
    exact ⟨place, time, by simp [walk, hplace], follow, h⟩
  | cons step steps ih =>
    have hmore : steps ++ rest ≠ [] := by simp [hrest]
    have hmore' : steps ++ [Step.here] ≠ [] := by simp
    rw [List.cons_append] at h ⊢
    cases t.moves step place with
    | on next hmove =>
      rw [hmove _ _ _ hmore] at h
      rw [hmove _ _ _ hmore']
      exact ih h
    | link base target hmove =>
      rw [hmove _ _ _ hmore, ← List.append_assoc] at h
      rw [hmove _ _ _ hmore', ← List.append_assoc]
      exact hfollow _ _ h
    | nowhere cause hmove =>
      rw [hmove _ _ _ hmore] at h
      cases h

theorem walkLinks_append {links : Nat} {steps rest : List Step} (hrest : rest ≠ []) {place : Place}
    (h : t.walkLinks true links place (steps ++ rest) = .ok target) :
    ∃ folder time,
      t.walkLinks true links place (steps ++ [.here]) = .ok (.found folder (.folder time)) ∧
        ∃ follow, t.walk true follow rest folder = .ok target := by
  induction links generalizing place steps with
  | zero => exact walk_append hrest (fun _ _ hfail => by cases hfail) h
  | succ links ih => exact walk_append hrest (fun _ _ hnext => ih hnext) h

/-- **A path of names is followed from where the path before it leads**, which is a folder. -/
theorem locate_join {p : FilePath} (hnames : ∀ n ∈ names, IsName n) (hne : names ≠ [])
    (h : t.locate true (p.join (relOf names)) = .ok target) :
    ∃ folder time, t.locate true (p.join ".") = .ok (.found folder (.folder time)) ∧
      ∃ follow, t.walk true follow (stepsInto names) folder = .ok target := by
  have hslash := head?_relOf_ne_slash hnames
  have hdot : ".".toList.head? ≠ some '/' := by decide
  obtain ⟨hnull, -, hshort, hwalk⟩ := locate_eq_ok_iff.1 h
  rw [FilePath.isAbsolute_join hslash, FilePath.steps_join_relOf hnames hne] at hwalk
  obtain ⟨folder, time, hfolder, hrest⟩ :=
    walkLinks_append (by simpa [stepsInto] using hne) hwalk
  -- the dot makes a path that is not longer
  have htext := FilePath.text_join (p := p) hslash
  have hrel : relOf names ≠ "" := mt (relOf_eq_empty_iff hnames).1 hne
  refine ⟨folder, time, locate_eq_ok_iff.2 ⟨?_, ?_, ?_, ?_⟩, hrest⟩
  · rw [htext, String.toList_append] at hnull
    rw [FilePath.text_join hdot, String.toList_append]
    simp only [List.contains_eq_mem, List.mem_append, decide_eq_false_iff_not, not_or] at hnull ⊢
    exact ⟨hnull.1, by decide⟩
  · rw [FilePath.text_join hdot]
    exact fun hempty => absurd (congrArg String.length hempty) (by simp)
  · have hpos : relOf names ≠ "" → 0 < (relOf names).utf8ByteSize := fun h =>
      Nat.pos_of_ne_zero (mt String.utf8ByteSize_eq_zero_iff.1 h)
    have hdotSize : ".".utf8ByteSize = 1 := by decide
    rw [htext, String.utf8ByteSize_append] at hshort
    rw [FilePath.text_join hdot, String.utf8ByteSize_append, hdotSize]
    have := hpos hrel
    omega
  · rw [FilePath.isAbsolute_join hdot, FilePath.steps_join hdot]
    exact hfolder

/-- Below the place there are only files and folders. -/
def PlainBelow (t : FileTree) (folder : Place) : Prop :=
  ∀ place node, t.node? place = some node → folder <+: place → place ≠ folder → node.isPlain = true

/-- Below the place there are no links. -/
def UnlinkedBelow (t : FileTree) (folder : Place) : Prop :=
  ∀ rest link, rest ≠ [] → t.node? (folder ++ rest) ≠ some (.link link)

theorem PlainBelow.unlinked {folder : Place} (h : t.PlainBelow folder) : t.UnlinkedBelow folder := by
  intro rest link hne hlink
  cases h _ _ hlink (List.prefix_append folder rest) (by simpa using hne)

/-- Where there are no links, names are put to the place one by one, and none of them is too
long. -/
theorem place_of_walk_stepsInto {through : Bool}
    {follow : Place → List Step → Except Trouble Target} {folder : Place}
    (hunlinked : t.UnlinkedBelow folder) {rest : Place}
    (h : t.walk through follow (stepsInto names) (folder ++ rest) = .ok target) :
    target.place = folder ++ rest ++ names.map Name.text ∧
      ∀ n ∈ names, n.utf8ByteSize ≤ maxNameBytes := by
  induction names generalizing rest with
  | nil =>
    simp only [stepsInto, List.map_nil, List.append_nil, walk] at h ⊢
    split at h
    · cases h; exact ⟨rfl, by simp⟩
    · cases h
  | cons name names ih =>
    simp only [stepsInto, List.map_cons] at h ih ⊢
    unfold walk at h
    split at h
    · dsimp only at h
      split at h
      · cases h
      · next hshort =>
        rw [List.forall_mem_cons]
        split at h
        · split at h
          · next hend =>
            cases h
            obtain rfl : names = [] := by simpa using hend
            exact ⟨rfl, Nat.le_of_not_lt hshort, by simp⟩
          · cases h
        · next link hlink =>
          rw [List.append_assoc] at hlink
          exact absurd hlink (hunlinked _ _ (by simp))
        · rw [List.append_assoc folder rest] at h
          obtain ⟨hplace, hnames⟩ := ih h
          refine ⟨?_, Nat.le_of_not_lt hshort, hnames⟩
          rw [hplace]
          simp only [List.append_assoc, List.singleton_append]
    · cases h
    · cases h

/-- Below a folder without links, names lead to the same on disks that are the same there. -/
theorem walk_stepsInto_congr {through : Bool}
    {follow follow' : Place → List Step → Except Trouble Target} {folder : Place}
    (hunlinked : t.UnlinkedBelow folder)
    (hsame : ∀ rest, t'.node? (folder ++ rest) = t.node? (folder ++ rest)) (rest : Place) :
    t'.walk through follow' (stepsInto names) (folder ++ rest) =
      t.walk through follow (stepsInto names) (folder ++ rest) := by
  induction names generalizing rest with
  | nil => simp only [stepsInto, List.map_nil, walk, hsame]
  | cons name names ih =>
    have hnext := ih (rest ++ [.text name])
    simp only [stepsInto, List.map_cons, walk, List.append_assoc, hsame] at hnext ⊢
    cases t.node? (folder ++ rest) with
    | none => rfl
    | some node =>
      cases node with
      | folder time =>
        cases hchild : t.node? (folder ++ (rest ++ [.text name])) with
        | none => rfl
        | some child =>
          cases child with
          | link link => exact absurd hchild (hunlinked _ _ (by simp))
          | _ => simp only [hnext]
      | _ => rfl

/-- **The place of a path of names** below a folder without links. -/
theorem place_of_locate_join {p : FilePath} (hnames : ∀ n ∈ names, IsName n) (hne : names ≠ [])
    (h : t.locate true (p.join (relOf names)) = .ok target) :
    ∃ folder time, t.locate true (p.join ".") = .ok (.found folder (.folder time)) ∧
      (t.UnlinkedBelow folder → target.place = folder ++ names.map Name.text ∧
        ∀ n ∈ names, n.utf8ByteSize ≤ maxNameBytes) := by
  obtain ⟨folder, time, hfolder, follow, hwalk⟩ := locate_join hnames hne h
  refine ⟨folder, time, hfolder, fun hunlinked => ?_⟩
  rw [← List.append_nil folder] at hwalk
  simpa using place_of_walk_stepsInto hunlinked hwalk

end FileTree
end Disk
end AlbumIndex
