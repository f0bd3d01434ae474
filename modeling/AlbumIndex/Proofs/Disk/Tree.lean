import AlbumIndex.Disk.FileTree
import AlbumIndex.Proofs.Disk.Names

/-!
# Well-formed trees

A tree is well-formed if no place has two nodes and every name in it can be followed.  The trees of
real disks are, and whatever is done to a well-formed tree leaves it well-formed: new nodes come
about only where a path has led, one name below a folder.

## Main definitions

* `FileTree.WellFormed` — no place twice, and only names that can be followed.

## Main results

* `FileTree.locate_cases` — a path leads to a node, or to a missing name in a folder.
* `FileTree.WellFormed.list` — a listing shows no name twice.
* `FileTree.list_eq_error_of_long` — a path that is too long has no listing.
* `FileTree.WellFormed.write`, `FileTree.WellFormed.makeFolders`, … — changes keep a tree
  well-formed.
-/

namespace AlbumIndex
namespace Disk

open Calendar

/-- A name that can be followed, or one that is no text. -/
def Name.IsProper : Name → Prop
  | .text s => IsName s
  | .raw _ => True

instance : (name : Name) → Decidable name.IsProper
  | .text s => inferInstanceAs (Decidable (IsName s))
  | .raw _ => inferInstanceAs (Decidable True)

namespace FileTree

/-- No place has two nodes, and every name can be followed. -/
structure WellFormed (t : FileTree) : Prop where
  places : (t.nodes.map Prod.fst).Nodup
  names : ∀ p ∈ t.nodes, ∀ name ∈ p.1, name.IsProper

instance (t : FileTree) : Decidable t.WellFormed :=
  decidable_of_iff ((t.nodes.map Prod.fst).Nodup ∧ ∀ p ∈ t.nodes, ∀ name ∈ p.1, name.IsProper)
    ⟨fun ⟨hplaces, hnames⟩ => ⟨hplaces, hnames⟩, fun h => ⟨h.places, h.names⟩⟩

variable {t t' : FileTree}

/-! ### Nodes of changed trees -/

theorem lookup_putNode (place q : Place) (node : FileNode) (nodes : List (Place × FileNode)) :
    (putNode place node nodes).lookup q = if q = place then some node else nodes.lookup q := by
  induction nodes with
  | nil =>
    by_cases hq : q = place
    · simp [putNode, hq]
    · simp [putNode, hq]
  | cons entry nodes ih =>
    obtain ⟨p, n⟩ := entry
    unfold putNode
    by_cases hp : p = place
    · rw [if_pos hp]
      by_cases hq : q = place
      · simp [hp, hq]
      · have hne : (q == p) = false := beq_eq_false_iff_ne.2 (hp ▸ hq)
        simp [List.lookup_cons, hne, hq]
    · rw [if_neg hp]
      by_cases hqp : q = p
      · simp [hqp, hp]
      · have hne : (q == p) = false := beq_eq_false_iff_ne.2 hqp
        simp only [List.lookup_cons, hne, ih]

/-- The nodes at some of the places. -/
theorem lookup_filter (keep : Place → Bool) (q : Place) (nodes : List (Place × FileNode)) :
    (nodes.filter fun entry => keep entry.1).lookup q = if keep q then nodes.lookup q else none := by
  induction nodes with
  | nil => simp
  | cons entry nodes ih =>
    obtain ⟨p, n⟩ := entry
    by_cases hp : keep p = true
    · rw [List.filter_cons, if_pos hp, List.lookup_cons, List.lookup_cons, ih]
      by_cases hq : q = p
      · simp [hq, hp]
      · rw [beq_eq_false_iff_ne.2 hq]
    · rw [List.filter_cons, if_neg hp, ih, List.lookup_cons]
      by_cases hq : q = p
      · simp [hq, hp]
      · rw [beq_eq_false_iff_ne.2 hq]

theorem node?_put (place q : Place) (node : FileNode) :
    (t.put place node).node? q = if q = place then some node else t.node? q :=
  lookup_putNode place q node t.nodes

@[simp] theorem node?_put_self (place : Place) (node : FileNode) :
    (t.put place node).node? place = some node := by
  rw [node?_put, if_pos rfl]

theorem node?_put_of_ne {place q : Place} {node : FileNode} (hq : q ≠ place) :
    (t.put place node).node? q = t.node? q := by
  rw [node?_put, if_neg hq]

theorem mem_nodes_of_node? {place : Place} {node : FileNode} (h : t.node? place = some node) :
    (place, node) ∈ t.nodes := by
  obtain ⟨front, back, hnodes, -⟩ := List.lookup_eq_some_iff.1 h
  rw [hnodes]
  simp

/-! ### Where a path leads -/

theorem isName_of_into_mem_steps {p : FilePath} {name : String} (h : Step.into name ∈ p.steps) :
    IsName name := by
  obtain ⟨piece, hpiece, hstep⟩ := List.mem_map.1 h
  have hslash : '/' ∉ piece := fun hmem => by
    have := Text.cut_eq_false_of_mem_pieces hpiece '/' hmem
    simp at this
  have hname : name = String.ofList piece := by
    unfold Step.of at hstep
    split at hstep
    · cases hstep
    · split at hstep
      · cases hstep
      · exact (Step.into.inj hstep).symm
  subst hname
  exact ⟨hstep, by simpa using hslash⟩

/-- What is known of a place that a path leads to. -/
inductive Leads (t : FileTree) : Target → Prop where
  | found {place : Place} {node : FileNode} (hnode : t.node? place = some node) :
    Leads t (.found place node)
  | missing {folder : Place} {time : Instant} {name : String}
    (hfolder : t.node? folder = some (.folder time)) (hname : IsName name)
    (hmissing : t.node? (folder ++ [.text name]) = none) :
    Leads t (.missing (folder ++ [.text name]))

variable {through : Bool} {follow : Place → List Step → Except Trouble Target} {target : Target}

theorem leads_of_walk
    (hfollow : ∀ place steps, (∀ name, Step.into name ∈ steps → IsName name) →
      follow place steps = .ok target → t.Leads target)
    {steps : List Step} {place : Place} (hsteps : ∀ name, Step.into name ∈ steps → IsName name)
    (h : walk t through follow steps place = .ok target) : t.Leads target := by
  induction steps generalizing place with
  | nil =>
    unfold walk at h
    cases hnode : t.node? place with
    | none => simp [hnode] at h
    | some node =>
      simp only [hnode, Except.ok.injEq] at h
      exact h ▸ .found hnode
  | cons step rest ih =>
    have hrest : ∀ name, Step.into name ∈ rest → IsName name := fun name hname =>
      hsteps name (List.mem_cons_of_mem _ hname)
    unfold walk at h
    split at h
    · next time hplace =>
      cases step with
      | here => exact ih hrest h
      | up => exact ih hrest h
      | into name =>
        dsimp only at h
        split at h
        · cases h
        · split at h
          · next hchild =>
            split at h
            · cases h
              exact .missing hplace (hsteps name List.mem_cons_self) hchild
            · cases h
          · next link hchild =>
            split at h
            · cases h
              exact .found hchild
            · split at h
              · cases h
              · refine hfollow _ _ (fun n hn => ?_) h
                rcases List.mem_append.1 hn with hn | hn
                · exact isName_of_into_mem_steps hn
                · exact hrest n hn
          · exact ih hrest h
    · cases h
    · cases h

theorem leads_of_walkLinks {links : Nat} {steps : List Step} {place : Place}
    (hsteps : ∀ name, Step.into name ∈ steps → IsName name)
    (h : walkLinks t through links place steps = .ok target) : t.Leads target := by
  induction links generalizing place steps with
  | zero => exact leads_of_walk (fun _ _ _ hfail => by cases hfail) hsteps h
  | succ links ih => exact leads_of_walk (fun _ _ => ih) hsteps h

/-- Following a path comes down to following its steps, if it is neither empty nor too long. -/
theorem locate_eq_ok_iff {p : FilePath} : t.locate through p = .ok target ↔
    p.text.toList.contains '\x00' = false ∧ p.text ≠ "" ∧ p.text.utf8ByteSize ≤ maxPathBytes ∧
      walkLinks t through maxLinks (if p.isAbsolute then [] else t.current) p.steps =
        .ok target := by
  unfold locate
  by_cases hnull : p.text.toList.contains '\x00' = true
  · rw [if_pos hnull]
    exact ⟨fun h => (by cases h), fun h => absurd hnull (by rw [h.1]; decide)⟩
  · by_cases hempty : p.text = ""
    · rw [if_neg hnull, if_pos hempty]
      exact ⟨fun h => (by cases h), fun h => absurd hempty h.2.1⟩
    · by_cases hlong : maxPathBytes < p.text.utf8ByteSize
      · rw [if_neg hnull, if_neg hempty, if_pos hlong]
        exact ⟨fun h => (by cases h), fun h => absurd h.2.2.1 (Nat.not_le.2 hlong)⟩
      · rw [if_neg hnull, if_neg hempty, if_neg hlong]
        exact ⟨fun h => ⟨by simpa using hnull, hempty, by omega, h⟩, fun h => h.2.2.2⟩

/-- A path leads to a node, or to a name that an existing folder does not have. -/
theorem leads_of_locate {p : FilePath} (h : t.locate through p = .ok target) : t.Leads target :=
  leads_of_walkLinks (fun _ => isName_of_into_mem_steps) (locate_eq_ok_iff.1 h).2.2.2

theorem node?_of_locate {p : FilePath} {place : Place} {node : FileNode}
    (h : t.locate through p = .ok (.found place node)) : t.node? place = some node := by
  cases leads_of_locate h with
  | found hnode => exact hnode

theorem node?_of_locate_missing {p : FilePath} {place : Place}
    (h : t.locate through p = .ok (.missing place)) : t.node? place = none := by
  cases leads_of_locate h with
  | missing _ _ hmissing => exact hmissing

/-! ### Listings -/

theorem nameIn?_eq_some_iff {folder place : Place} {name : Name} :
    nameIn? folder place = some name ↔ place = folder ++ [name] := by
  unfold nameIn?
  constructor
  · intro h
    split at h
    · next hprefix =>
      obtain ⟨rest, rfl⟩ := List.isPrefixOf_iff_prefix.1 hprefix
      rw [List.drop_left] at h
      split at h
      · cases h; rfl
      · cases h
    · cases h
  · rintro rfl
    rw [if_pos (List.isPrefixOf_iff_prefix.2 ⟨[name], rfl⟩), List.drop_left]

theorem stat_eq_ok_iff {p : FilePath} {node : FileNode} :
    t.stat p = .ok node ↔ ∃ q, t.locate true p = .ok (.found q node) := by
  unfold stat
  rcases t.locate true p with cause | ⟨q, found⟩ | q <;> simp

/-- A name is listed if something is told of its path. -/
theorem entry?_text (t : FileTree) (p : FilePath) (name : String) :
    t.entry? p (.text name) =
      (t.stat (p.join name)).toOption.map fun node => ⟨name, node.isFile, node.modified⟩ := by
  unfold entry?
  dsimp only
  cases t.stat (p.join name) <;> rfl

theorem name_eq_of_entry {p : FilePath} {name : Name} {e : Entry} (h : t.entry? p name = some e) :
    name = .text e.name := by
  cases name with
  | raw bytes => cases h
  | text s =>
    unfold entry? at h
    dsimp only at h
    cases hstat : t.stat (p.join s) with
    | ok node => rw [hstat] at h; cases h; rfl
    | error cause => rw [hstat] at h; cases h

theorem list_eq_ok {p : FilePath} {entries : List Entry} (h : t.list p = .ok entries) :
    ∃ place time, t.locate true p = .ok (.found place (.folder time)) ∧
      entries = (t.namesIn place).filterMap ( t.entry? p) := by
  unfold list at h
  split at h
  · next place time hlocate =>
    cases h
    exact ⟨place, time, hlocate, rfl⟩
  · cases h
  · cases h
  · cases h

namespace WellFormed

theorem namesIn_nodup (ht : t.WellFormed) (folder : Place) : (t.namesIn folder).Nodup := by
  refine List.pairwise_filterMap.2 ((List.pairwise_map.1 ht.places).imp ?_)
  rintro ⟨p, _⟩ ⟨q, _⟩ hne name hname other hother
  rw [nameIn?_eq_some_iff] at hname hother
  exact fun hsame => hne (by rw [hname, hother, hsame])

theorem isProper_of_mem_namesIn (ht : t.WellFormed) {folder : Place} {name : Name}
    (h : name ∈ t.namesIn folder) : name.IsProper := by
  obtain ⟨entry, hentry, hname⟩ := List.mem_filterMap.1 h
  refine ht.names entry hentry name ?_
  rw [nameIn?_eq_some_iff.1 hname]
  simp

/-- A listing shows no name twice, and only names that can be followed. -/
theorem list (ht : t.WellFormed) {p : FilePath} {entries : List Entry}
    (h : t.list p = .ok entries) :
    (entries.map Entry.name).Nodup ∧ ∀ e ∈ entries, IsName e.name := by
  obtain ⟨place, _, -, rfl⟩ := list_eq_ok h
  constructor
  · refine List.pairwise_map.2 (List.pairwise_filterMap.2 ((ht.namesIn_nodup place).imp ?_))
    intro name other hne e he e' he' hsame
    exact hne (by rw [name_eq_of_entry he, name_eq_of_entry he', hsame])
  · intro e he
    obtain ⟨name, hmem, hentry⟩ := List.mem_filterMap.1 he
    have hproper := ht.isProper_of_mem_namesIn hmem
    rwa [name_eq_of_entry hentry] at hproper

end WellFormed

theorem list_eq_error_of_long {p : FilePath} (h : maxPathBytes < p.text.utf8ByteSize) :
    ∃ cause, t.list p = .error cause := by
  cases hlist : t.list p with
  | error cause => exact ⟨cause, rfl⟩
  | ok entries =>
    obtain ⟨_, _, hlocate, -⟩ := list_eq_ok hlist
    have hshort := (locate_eq_ok_iff.1 hlocate).2.2.1
    omega

/-! ### Changes -/

theorem map_fst_putNode (place : Place) (node : FileNode) (nodes : List (Place × FileNode)) :
    (putNode place node nodes).map Prod.fst =
      if place ∈ nodes.map Prod.fst then nodes.map Prod.fst else nodes.map Prod.fst ++ [place] := by
  induction nodes with
  | nil => rfl
  | cons entry nodes ih =>
    obtain ⟨p, n⟩ := entry
    unfold putNode
    by_cases hp : p = place
    · simp [hp]
    · have hmem : place ∈ (((p, n) :: nodes).map Prod.fst) ↔ place ∈ nodes.map Prod.fst := by
        simp [Ne.symm hp]
      rw [if_neg hp, List.map_cons, ih]
      by_cases hplace : place ∈ nodes.map Prod.fst
      · rw [if_pos hplace, if_pos (hmem.2 hplace), List.map_cons]
      · rw [if_neg hplace, if_neg (mt hmem.1 hplace), List.map_cons, List.cons_append]

namespace WellFormed

theorem names_of_node? (ht : t.WellFormed) {place : Place} {node : FileNode}
    (h : t.node? place = some node) : ∀ name ∈ place, name.IsProper :=
  ht.names _ (mem_nodes_of_node? h)

theorem put (ht : t.WellFormed) {place : Place} (hplace : ∀ name ∈ place, name.IsProper)
    (node : FileNode) : (t.put place node).WellFormed := by
  have hfst : ((t.put place node).nodes.map Prod.fst) =
      if place ∈ t.nodes.map Prod.fst then t.nodes.map Prod.fst
      else t.nodes.map Prod.fst ++ [place] := map_fst_putNode place node t.nodes
  constructor
  · rw [hfst]
    split
    · exact ht.places
    · next hnew =>
      refine List.nodup_append.2 ⟨ht.places, by simp, ?_⟩
      rintro p hp q hq rfl
      exact hnew (List.mem_singleton.1 hq ▸ hp)
  · intro entry hentry
    have hmem : entry.1 ∈ (t.put place node).nodes.map Prod.fst := List.mem_map_of_mem hentry
    have hold : ∀ p ∈ t.nodes.map Prod.fst, ∀ name ∈ p, name.IsProper := by
      intro p hp
      obtain ⟨old, hmemold, rfl⟩ := List.mem_map.1 hp
      exact ht.names old hmemold
    rw [hfst] at hmem
    split at hmem
    · exact hold _ hmem
    · rcases List.mem_append.1 hmem with hmem | hmem
      · exact hold _ hmem
      · exact List.mem_singleton.1 hmem ▸ hplace

theorem put_of_leads (ht : t.WellFormed) {place : Place} (h : t.Leads (.missing place))
    (node : FileNode) : (t.put place node).WellFormed := by
  cases h with
  | missing hfolder hname _ =>
    refine ht.put (fun name hmem => ?_) node
    rcases List.mem_append.1 hmem with hmem | hmem
    · exact ht.names_of_node? hfolder name hmem
    · exact List.mem_singleton.1 hmem ▸ hname

theorem write (ht : t.WellFormed) {p : FilePath} {bytes : List UInt8}
    (h : t.write p bytes = .ok t') : t'.WellFormed := by
  unfold FileTree.write at h
  split at h
  · next hlocate => cases h; exact ht.put (ht.names_of_node? (node?_of_locate hlocate)) _
  · cases h; exact ht
  · cases h
  · cases h
  · next hlocate => cases h; exact ht.put_of_leads (leads_of_locate hlocate) _
  · cases h

theorem makeFolder (ht : t.WellFormed) {p : FilePath} (h : t.makeFolder p = .ok t') :
    t'.WellFormed := by
  unfold FileTree.makeFolder at h
  dsimp only at h
  split at h
  · cases h
  · next hlocate => cases h; exact ht.put_of_leads (leads_of_locate hlocate) _
  · cases h

end WellFormed

/-- What making folders on the way to a path comes to, if it is known for each of them. -/
theorem makeFolders_induction {P : FileTree → Prop} {p : FilePath} (h : P t)
    (one : ∀ {t t' q}, q ∈ p.ancestors → t.makeFolder q = .ok t' → P t → P t') :
    P (t.makeFolders p).1 := by
  have ensure : ∀ {t q}, q ∈ p.ancestors → P t → P (t.ensureFolder q).1 := by
    intro t q hq ht
    unfold ensureFolder
    split
    · next hmade => exact one hq hmade ht
    · exact ht
  have missing : ∀ (around : List FilePath), (∀ q ∈ around, q ∈ p.ancestors) →
      P (t.makeMissing around).1 := by
    intro around haround
    induction around with
    | nil => exact h
    | cons q around ih =>
      obtain ⟨hq, haround⟩ := List.forall_mem_cons.1 haround
      have ih := ih haround
      unfold makeMissing
      split
      · split
        · next hmade => rw [hmade] at ih; exact ih
        · next hmade => rw [hmade] at ih; exact ensure hq ih
      · exact ensure hq h
  exact missing p.ancestors fun _ hq => hq

namespace WellFormed

theorem makeFolders (ht : t.WellFormed) (p : FilePath) : (t.makeFolders p).1.WellFormed :=
  makeFolders_induction ht fun _ made h => h.makeFolder made

theorem touch (ht : t.WellFormed) (p : FilePath) (time : Instant) : (t.touch p time).WellFormed := by
  unfold FileTree.touch
  split
  · next hlocate => exact ht.put (ht.names_of_node? (node?_of_locate hlocate)) _
  · next hlocate => exact ht.put (ht.names_of_node? (node?_of_locate hlocate)) _
  · exact ht

theorem makeLink (ht : t.WellFormed) {p target : FilePath} (h : t.makeLink p target = .ok t') :
    t'.WellFormed := by
  unfold FileTree.makeLink at h
  split at h
  · cases h
  · next hlocate => cases h; exact ht.put_of_leads (leads_of_locate hlocate) _
  · cases h

theorem remove (ht : t.WellFormed) (p : FilePath) : (t.remove p).WellFormed := by
  unfold FileTree.remove
  split
  · refine ⟨ht.places.sublist (List.Sublist.map _ List.filter_sublist), fun entry hentry => ?_⟩
    exact ht.names entry (List.mem_filter.1 hentry).1
  · exact ht

end WellFormed
end FileTree
end Disk
end AlbumIndex
