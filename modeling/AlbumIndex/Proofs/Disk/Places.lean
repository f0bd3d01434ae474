import AlbumIndex.Proofs.Disk.Following

/-!
# Places and the paths that lead there

On a disk everything lies in a folder.  So below a folder without links, a path of names leads to the
place with these names whenever there is something, and to a missing name whenever only the folder
around it is there; the one thing that can come between is that a name or the whole path is too
long.  What a path of names leads to is then told by the nodes alone.

## Main definitions

* `FileTree.Closed` — everything lies in a folder.
* `FileTree.InLimits` — neither a path of names nor one of the names is too long.

## Main results

* `FileTree.Closed.write`, `FileTree.Closed.makeFolder` — changes keep a tree closed.
* `FileTree.locate_join_found_iff` — **a path of names leads to what is at its place.**
* `FileTree.locate_join_missing` — a path of names leads to a name that is missing in a folder.
* `FileTree.locate_of_locate_dot` — a path whose dot leads to a folder leads there itself.
-/

namespace AlbumIndex
namespace Disk

open Calendar

/-! ### The end of a path -/

namespace FilePath

variable (p : FilePath)

/-- The steps of a path, and the one step that a slash at its end makes more. -/
theorem steps_eq_before (hne : p.text ≠ "") :
    p.steps = p.before ∨ p.steps = p.before ++ [.here] := by
  unfold before
  rw [if_neg hne]
  by_cases hlast : p.text.toList.getLast? = some '/'
  · obtain ⟨front, hfront⟩ := List.getLast?_eq_some_iff.1 hlast
    have htext : p = ⟨String.ofList p.text.toList.dropLast ++ "/" ++ ""⟩ :=
      eq_of_text (String.toList_inj.1 (by simp [hfront]))
    have hsteps := congrArg steps htext
    rw [steps_append] at hsteps
    rw [if_pos hlast]
    exact Or.inr hsteps
  · rw [if_neg hlast]
    exact Or.inl rfl

theorem mem_front {c : Char} (h : c ∈ p.text.toList) : c ∈ p.front.toList := by
  unfold front
  split
  · exact h
  · rw [String.toList_append]
    exact List.mem_append_left _ h

/-- A path of names is not empty, whatever it is continued from. -/
theorem text_join_relOf_ne_empty {names : List String} (hnames : ∀ n ∈ names, IsName n)
    (hne : names ≠ []) : (p.join (relOf names)).text ≠ "" := by
  rw [text_join (head?_relOf_ne_slash hnames)]
  intro hempty
  have hparts := congrArg String.toList hempty
  rw [String.toList_append, String.toList_empty, List.append_eq_nil_iff] at hparts
  exact mt (relOf_eq_empty_iff hnames).1 hne (String.toList_eq_nil_iff.1 hparts.2)

theorem utf8ByteSize_le_front : p.text.utf8ByteSize ≤ p.front.utf8ByteSize := by
  unfold front
  split
  · exact Nat.le_refl _
  · rw [String.utf8ByteSize_append]
    exact Nat.le_add_right _ _

end FilePath

def FileNode.isFolder : FileNode → Bool
  | .folder _ => true
  | _ => false

theorem FileNode.isFolder_iff {node : FileNode} :
    node.isFolder = true ↔ ∃ time, node = .folder time := by
  cases node <;> simp [isFolder]

namespace FileTree

variable {t t' : FileTree}

/-! ### Everything lies in a folder -/

/-- Everything but the root lies in a folder. -/
def Closed (t : FileTree) : Prop :=
  ∀ p ∈ t.nodes, p.1 ≠ [] → (t.node? p.1.dropLast).any FileNode.isFolder = true

instance (t : FileTree) : Decidable t.Closed := inferInstanceAs (Decidable (∀ _ ∈ _, _))

theorem exists_node?_of_mem {p : Place × FileNode} (h : p ∈ t.nodes) :
    ∃ node, t.node? p.1 = some node := by
  cases hnode : t.node? p.1 with
  | some node => exact ⟨node, rfl⟩
  | none => exact absurd (List.lookup_eq_none_iff.1 hnode p h) (by simp)

theorem closed_iff : t.Closed ↔ ∀ place name node, t.node? (place ++ [name]) = some node →
    ∃ time, t.node? place = some (.folder time) := by
  constructor
  · intro h place name node hnode
    have hfolder := h _ (mem_nodes_of_node? hnode) (by simp)
    rw [List.dropLast_concat, Option.any_eq_true_iff_get] at hfolder
    obtain ⟨hsome, hget⟩ := hfolder
    obtain ⟨time, htime⟩ := FileNode.isFolder_iff.1 hget
    exact ⟨time, Option.eq_some_iff_get_eq.2 ⟨hsome, htime⟩⟩
  · intro h p hp hne
    obtain ⟨node, hnode⟩ := exists_node?_of_mem hp
    rw [← List.dropLast_concat_getLast hne] at hnode
    obtain ⟨time, htime⟩ := h _ _ _ hnode
    rw [htime]
    rfl

namespace Closed

/-- Around every place there are folders. -/
theorem folder (h : t.Closed) {place rest : Place} {node : FileNode} (hrest : rest ≠ [])
    (hnode : t.node? (place ++ rest) = some node) : ∃ time, t.node? place = some (.folder time) := by
  induction rest generalizing place with
  | nil => exact absurd rfl hrest
  | cons name rest ih =>
    by_cases hnil : rest = []
    · subst hnil
      exact closed_iff.1 h _ _ _ hnode
    · rw [List.append_cons] at hnode
      obtain ⟨time, hbelow⟩ := ih hnil hnode
      exact closed_iff.1 h _ _ _ hbelow

/-- Below what is missing there is nothing. -/
theorem missing_below (h : t.Closed) {place : Place} (hmissing : t.node? place = none)
    (rest : Place) : t.node? (place ++ rest) = none := by
  by_cases hrest : rest = []
  · rw [hrest, List.append_nil, hmissing]
  · cases hnode : t.node? (place ++ rest) with
    | none => rfl
    | some node =>
      obtain ⟨_, hfolder⟩ := h.folder hrest hnode
      rw [hmissing] at hfolder
      cases hfolder

/-- A new node in a folder, or one of the same kind in place of another. -/
theorem put (h : t.Closed) {place : Place} {node : FileNode}
    (haround : ∀ front name, place = front ++ [name] → ∃ time, t.node? front = some (.folder time))
    (hkind : ∀ time, t.node? place = some (.folder time) → node.isFolder = true) :
    (t.put place node).Closed := by
  rw [closed_iff] at h ⊢
  intro front name child hchild
  -- the folder around it is still one, whether it was replaced or not
  have hkept : ∀ time, t.node? front = some (.folder time) →
      ∃ time, (t.put place node).node? front = some (.folder time) := by
    intro time hfront
    by_cases hsame : front = place
    · subst hsame
      obtain ⟨time', rfl⟩ := FileNode.isFolder_iff.1 (hkind time hfront)
      exact ⟨time', node?_put_self _ _⟩
    · exact ⟨time, by rw [node?_put_of_ne hsame, hfront]⟩
  rw [node?_put] at hchild
  split at hchild
  · next hsame =>
    obtain ⟨time, hfront⟩ := haround front name hsame.symm
    exact hkept time hfront
  · obtain ⟨time, hfront⟩ := h front name child hchild
    exact hkept time hfront

theorem put_missing (h : t.Closed) {place : Place} (hleads : t.Leads (.missing place))
    (node : FileNode) : (t.put place node).Closed := by
  cases hleads with
  | missing hfolder _ hmissing =>
    refine h.put (fun front name hplace => ?_) fun time htime => ?_
    · obtain ⟨rfl, -⟩ := List.append_inj' hplace rfl
      exact ⟨_, hfolder⟩
    · rw [hmissing] at htime
      cases htime

theorem put_file (h : t.Closed) {place : Place} {bytes bytes' : List UInt8} {time time' : Instant}
    (hnode : t.node? place = some (.file bytes time)) : (t.put place (.file bytes' time')).Closed := by
  refine h.put (fun front name hplace => ?_) fun time htime => ?_
  · subst hplace
    exact closed_iff.1 h _ _ _ hnode
  · rw [hnode] at htime
    cases htime

theorem write (h : t.Closed) {p : FilePath} {bytes : List UInt8} (hwrite : t.write p bytes = .ok t') :
    t'.Closed := by
  unfold FileTree.write at hwrite
  split at hwrite
  · next hlocate => cases hwrite; exact h.put_file (node?_of_locate hlocate)
  · cases hwrite; exact h
  · cases hwrite
  · cases hwrite
  · next hlocate => cases hwrite; exact h.put_missing (leads_of_locate hlocate) _
  · cases hwrite

theorem makeFolder (h : t.Closed) {p : FilePath} (hmade : t.makeFolder p = .ok t') : t'.Closed := by
  unfold FileTree.makeFolder at hmade
  dsimp only at hmade
  split at hmade
  · cases hmade
  · next hlocate => cases hmade; exact h.put_missing (leads_of_locate hlocate) _
  · cases hmade

end Closed

/-! ### From a folder on -/

variable {through : Bool} {follow follow' : Place → List Step → Except Trouble Target}
  {target : Target} {folder : Place} {time : Instant} {names : List String}

/-- Through folders, names are put to the place one by one. -/
theorem walk_into_folders (ht : t.Closed) {place : Place}
    (hfolder : t.node? (place ++ names.map Name.text) = some (.folder time))
    (hnames : ∀ n ∈ names, n.utf8ByteSize ≤ maxNameBytes) (steps : List Step) :
    t.walk through follow (stepsInto names ++ steps) place =
      t.walk through follow steps (place ++ names.map Name.text) := by
  induction names generalizing place with
  | nil => simp [stepsInto]
  | cons n names ih =>
    obtain ⟨hn, hnames⟩ := List.forall_mem_cons.1 hnames
    have hplace : place ++ (n :: names).map Name.text =
        place ++ [.text n] ++ names.map Name.text := by
      rw [List.map_cons, List.append_assoc, List.singleton_append]
    obtain ⟨_, haround⟩ : ∃ time, t.node? place = some (.folder time) :=
      ht.folder (by simp) hfolder
    rw [hplace] at hfolder ⊢
    obtain ⟨_, hchild⟩ : ∃ time, t.node? (place ++ [.text n]) = some (.folder time) := by
      by_cases hnil : names = []
      · subst hnil
        exact ⟨time, by simpa using hfolder⟩
      · exact ht.folder (by simpa using hnil) hfolder
    have hrest := ih hfolder hnames
    rw [← hrest]
    simp [stepsInto, walk, haround, hchild, Nat.not_lt.2 hn]

/-- A last name in a folder, behind which there is something that is no link. -/
theorem walk_into_found (ht : t.Closed) {name : String} {node : FileNode}
    (hnode : t.node? (folder ++ (names ++ [name]).map Name.text) = some node)
    (hlink : ∀ link, node ≠ .link link)
    (hnames : ∀ n ∈ names ++ [name], n.utf8ByteSize ≤ maxNameBytes) :
    t.walk through follow (stepsInto (names ++ [name])) folder =
      .ok (.found (folder ++ (names ++ [name]).map Name.text) node) := by
  rw [List.map_append, ← List.append_assoc] at hnode ⊢
  obtain ⟨time, hfolder⟩ := ht.folder (by simp) hnode
  have hsplit : stepsInto (names ++ [name]) = stepsInto names ++ [.into name] := by simp [stepsInto]
  have hname := hnames name (by simp)
  rw [hsplit, walk_into_folders ht hfolder fun n hn => hnames n (List.mem_append_left _ hn)]
  rw [List.map_singleton] at hnode ⊢
  cases node with
  | link q => exact absurd rfl (hlink q)
  | _ => simp [-List.append_assoc, walk, hfolder, hnode, Nat.not_lt.2 hname]

/-- A last name that is missing in a folder. -/
theorem walk_into_missing (ht : t.Closed) {name : String}
    (hfolder : t.node? (folder ++ names.map Name.text) = some (.folder time))
    (hmissing : t.node? (folder ++ (names ++ [name]).map Name.text) = none)
    (hnames : ∀ n ∈ names ++ [name], n.utf8ByteSize ≤ maxNameBytes) :
    t.walk through follow (stepsInto (names ++ [name])) folder =
      .ok (.missing (folder ++ (names ++ [name]).map Name.text)) := by
  have hsplit : stepsInto (names ++ [name]) = stepsInto names ++ [.into name] := by simp [stepsInto]
  have hname := hnames name (by simp)
  rw [hsplit, walk_into_folders ht hfolder fun n hn => hnames n (List.mem_append_left _ hn)]
  rw [List.map_append, ← List.append_assoc, List.map_singleton] at hmissing ⊢
  simp [-List.append_assoc, walk, hfolder, hmissing, Nat.not_lt.2 hname]

/-! ### On from where a path leads -/

/-- Steps to a folder and more steps: the rest of the way is gone from that folder. -/
theorem walk_append_of_here {rest : List Step} (hrest : rest ≠ [])
    (hfollow : ∀ place steps, follow place (steps ++ [.here]) = .ok (.found folder (.folder time)) →
      ∃ on, follow' place (steps ++ rest) = t.walk through on rest folder)
    {steps : List Step} {place : Place}
    (h : t.walk true follow (steps ++ [.here]) place = .ok (.found folder (.folder time))) :
    ∃ on, t.walk through follow' (steps ++ rest) place = t.walk through on rest folder := by
  induction steps generalizing place with
  | nil =>
    obtain rfl : place = folder := by
      simp only [List.nil_append, walk] at h
      split at h
      · split at h
        · cases h; rfl
        · cases h
      · cases h
      · cases h
    exact ⟨follow', rfl⟩
  | cons step steps ih =>
    have hmore : steps ++ rest ≠ [] := by simp [hrest]
    have hmore' : steps ++ [Step.here] ≠ [] := by simp
    rw [List.cons_append] at h ⊢
    cases t.moves step place with
    | on next hmove =>
      rw [hmove _ _ _ hmore'] at h
      rw [hmove _ _ _ hmore]
      exact ih h
    | link base target hmove =>
      rw [hmove _ _ _ hmore', ← List.append_assoc] at h
      rw [hmove _ _ _ hmore, ← List.append_assoc]
      exact hfollow _ _ h
    | nowhere cause hmove =>
      rw [hmove _ _ _ hmore'] at h
      cases h

theorem walkLinks_append_of_here (through : Bool) {rest : List Step} (hrest : rest ≠ []) {links : Nat}
    {steps : List Step} {place : Place}
    (h : t.walkLinks true links place (steps ++ [.here]) = .ok (.found folder (.folder time))) :
    ∃ on, t.walkLinks through links place (steps ++ rest) = t.walk through on rest folder := by
  induction links generalizing place steps with
  | zero => exact walk_append_of_here hrest (fun _ _ hfail => by cases hfail) h
  | succ links ih => exact walk_append_of_here hrest (fun _ _ => ih) h

/-- Neither the path of names nor one of the names is too long. -/
structure InLimits (p : FilePath) (names : List String) : Prop where
  noNull : (p.join (relOf names)).text.toList.contains '\x00' = false
  length : (p.join (relOf names)).text.utf8ByteSize ≤ maxPathBytes
  names : ∀ n ∈ names, n.utf8ByteSize ≤ maxNameBytes

instance (p : FilePath) (names : List String) : Decidable (InLimits p names) :=
  decidable_of_iff ((p.join (relOf names)).text.toList.contains '\x00' = false ∧
      (p.join (relOf names)).text.utf8ByteSize ≤ maxPathBytes ∧
      ∀ n ∈ names, n.utf8ByteSize ≤ maxNameBytes)
    ⟨fun ⟨hnull, hlength, hnames⟩ => ⟨hnull, hlength, hnames⟩,
      fun h => ⟨h.noNull, h.length, h.names⟩⟩

variable {p : FilePath}

theorem relOf_append (names more : List String) : ∃ rest, relOf (names ++ more) = relOf names ++ rest := by
  suffices ∀ parent : String, ∃ rest, more.foldl joinRel parent = parent ++ rest by
    rw [relOf, List.foldl_append]
    exact this _
  induction more with
  | nil => exact fun parent => ⟨"", by simp⟩
  | cons name more ih =>
    intro parent
    obtain ⟨rest, hrest⟩ := ih (joinRel parent name)
    rw [List.foldl_cons, hrest, joinRel]
    split
    · next hempty => exact ⟨name ++ rest, by simp [hempty]⟩
    · exact ⟨"/" ++ name ++ rest, by simp only [String.append_assoc]⟩

/-- The text of a path of names is the beginning of that of a longer one. -/
theorem text_join_append {more : List String} (hnames : ∀ n ∈ names ++ more, IsName n) :
    ∃ rest, (p.join (relOf (names ++ more))).text = (p.join (relOf names)).text ++ rest := by
  obtain ⟨rest, hrest⟩ := relOf_append names more
  refine ⟨rest, ?_⟩
  rw [FilePath.text_join (head?_relOf_ne_slash hnames), hrest, FilePath.text_join
    (head?_relOf_ne_slash fun n hn => hnames n (List.mem_append_left _ hn)), String.append_assoc]

theorem noNull_of_append {a b : String} (h : (a ++ b).toList.contains '\x00' = false) :
    a.toList.contains '\x00' = false := by
  rw [String.toList_append, List.contains_eq_mem, decide_eq_false_iff_not, List.mem_append,
    not_or] at h
  rw [List.contains_eq_mem, decide_eq_false_iff_not]
  exact h.1

/-- With a path of names, that of the folders around is not too long. -/
theorem InLimits.front {more : List String} (h : InLimits p (names ++ more))
    (hnames : ∀ n ∈ names ++ more, IsName n) : InLimits p names := by
  obtain ⟨rest, htext⟩ := text_join_append (p := p) hnames
  have hnull := h.noNull
  have hlength := h.length
  rw [htext] at hnull hlength
  rw [String.utf8ByteSize_append] at hlength
  exact ⟨noNull_of_append hnull, by omega, fun n hn => h.names n (List.mem_append_left _ hn)⟩

theorem utf8ByteSize_joinRel_le (parent rest : String) {a b : String}
    (hsize : b.utf8ByteSize ≤ a.utf8ByteSize) :
    (joinRel parent b).utf8ByteSize ≤ (joinRel (parent ++ rest) a).utf8ByteSize := by
  by_cases hempty : parent = ""
  · unfold joinRel
    rw [if_pos hempty]
    split
    · exact hsize
    · rw [String.utf8ByteSize_append]
      omega
  · have hlonger : parent ++ rest ≠ "" := fun h => hempty (by
      have := congrArg String.toList h
      rw [String.toList_append, String.toList_empty, List.append_eq_nil_iff] at this
      exact String.toList_eq_nil_iff.1 this.1)
    simp only [joinRel, if_neg hempty, if_neg hlonger, String.utf8ByteSize_append]
    omega

/-- A name that is not longer does not make a path too long, in the same folder or in one around. -/
theorem InLimits.shorter {more : List String} {a b : String} (h : InLimits p (names ++ (more ++ [a])))
    (hnames : ∀ n ∈ names ++ (more ++ [a]), IsName n) (hb : IsName b)
    (hnull : b.toList.contains '\x00' = false) (hsize : b.utf8ByteSize ≤ a.utf8ByteSize) :
    InLimits p (names ++ [b]) := by
  have hnames' : ∀ n ∈ names, IsName n := fun n hn => hnames n (List.mem_append_left _ hn)
  have htext := FilePath.text_join (p := p)
    (head?_relOf_ne_slash (forall_isName_concat hnames' hb))
  have hfront := h.front hnames
  refine ⟨?_, ?_, fun n hn => ?_⟩
  · have hbefore := hfront.noNull
    rw [FilePath.text_join (head?_relOf_ne_slash hnames')] at hbefore
    rw [htext, relOf_concat]
    unfold joinRel
    simp only [List.contains_eq_mem, decide_eq_false_iff_not] at hbefore hnull ⊢
    split <;> simp_all
  · obtain ⟨rest, hrest⟩ := relOf_append names more
    have hlength := h.length
    have hsizes := utf8ByteSize_joinRel_le (relOf names) rest hsize
    rw [FilePath.text_join (head?_relOf_ne_slash hnames), ← List.append_assoc, relOf_concat, hrest,
      String.utf8ByteSize_append] at hlength
    rw [htext, relOf_concat, String.utf8ByteSize_append]
    omega
  · rcases List.mem_append.1 hn with hn | hn
    · exact hfront.names n hn
    · exact List.mem_singleton.1 hn ▸ Nat.le_trans hsize (h.names a (by simp))

/-- A path of names that is not too long is followed from where the path before it leads. -/
theorem locate_join_eq (through : Bool) (hnames : ∀ n ∈ names, IsName n) (hne : names ≠ [])
    (hnull : (p.join (relOf names)).text.toList.contains '\x00' = false)
    (hlength : (p.join (relOf names)).text.utf8ByteSize ≤ maxPathBytes)
    (hroot : t.locate true (p.join ".") = .ok (.found folder (.folder time))) :
    ∃ on, t.locate through (p.join (relOf names)) = t.walk through on (stepsInto names) folder := by
  have hslash := head?_relOf_ne_slash hnames
  have hdot : ".".toList.head? ≠ some '/' := by decide
  obtain ⟨-, -, -, hwalk⟩ := locate_eq_ok_iff.1 hroot
  rw [FilePath.isAbsolute_join hdot, FilePath.steps_join hdot] at hwalk
  have hsteps : stepsInto names ≠ [] := by simpa [stepsInto] using hne
  obtain ⟨on, hon⟩ := walkLinks_append_of_here through hsteps hwalk
  refine ⟨on, ?_⟩
  rw [locate, if_neg (by rw [hnull]; exact Bool.false_ne_true),
    if_neg (p.text_join_relOf_ne_empty hnames hne), if_neg (Nat.not_lt.2 hlength),
    FilePath.isAbsolute_join hslash, FilePath.steps_join_relOf hnames hne, hon]

/-- Paths below a folder without links lead to the same on disks that are the same there. -/
theorem locate_join_congr (hnames : ∀ n ∈ names, IsName n) (hne : names ≠ [])
    (hroot : t.locate true (p.join ".") = .ok (.found folder (.folder time)))
    (hroot' : t'.locate true (p.join ".") = .ok (.found folder (.folder time)))
    (hunlinked : t.UnlinkedBelow folder)
    (hsame : ∀ rest, t'.node? (folder ++ rest) = t.node? (folder ++ rest)) :
    t'.locate through (p.join (relOf names)) = t.locate through (p.join (relOf names)) := by
  by_cases hnull : (p.join (relOf names)).text.toList.contains '\x00' = false
  · by_cases hlength : (p.join (relOf names)).text.utf8ByteSize ≤ maxPathBytes
    · obtain ⟨on, hon⟩ := locate_join_eq through hnames hne hnull hlength hroot
      obtain ⟨on', hon'⟩ := locate_join_eq through hnames hne hnull hlength hroot'
      rw [hon, hon', ← List.append_nil folder]
      exact walk_stepsInto_congr hunlinked hsame []
    · simp only [locate, Nat.lt_of_not_le hlength, ↓reduceIte]
  · simp only [locate, Bool.not_eq_false] at hnull ⊢
    simp only [hnull, ↓reduceIte]

/-- What is known where a path of names leads somewhere, below a folder without links. -/
theorem locate_join_eq_ok (hnames : ∀ n ∈ names, IsName n) (hne : names ≠ [])
    (hroot : t.locate true (p.join ".") = .ok (.found folder (.folder time)))
    (hunlinked : t.UnlinkedBelow folder) (h : t.locate through (p.join (relOf names)) = .ok target) :
    InLimits p names ∧ target.place = folder ++ names.map Name.text := by
  obtain ⟨hnull, -, hlength, -⟩ := locate_eq_ok_iff.1 h
  obtain ⟨on, hon⟩ := locate_join_eq through hnames hne hnull hlength hroot
  rw [hon] at h
  rw [← List.append_nil folder] at h
  obtain ⟨hplace, hshort⟩ := place_of_walk_stepsInto hunlinked h
  rw [List.append_nil] at hplace
  exact ⟨⟨hnull, hlength, hshort⟩, hplace⟩

/-- **A path of names leads to what is at its place**, below a folder without links. -/
theorem locate_join_found_iff (ht : t.Closed) (hnames : ∀ n ∈ names, IsName n) (hne : names ≠ [])
    (hroot : t.locate true (p.join ".") = .ok (.found folder (.folder time)))
    (hunlinked : t.UnlinkedBelow folder) {place : Place} {node : FileNode} :
    t.locate true (p.join (relOf names)) = .ok (.found place node) ↔
      InLimits p names ∧ place = folder ++ names.map Name.text ∧ t.node? place = some node := by
  constructor
  · intro h
    obtain ⟨hlimits, hplace⟩ := locate_join_eq_ok hnames hne hroot hunlinked h
    exact ⟨hlimits, hplace, node?_of_locate h⟩
  · rintro ⟨hlimits, rfl, hnode⟩
    obtain ⟨on, hon⟩ := locate_join_eq true hnames hne hlimits.noNull
      hlimits.length hroot
    rcases List.eq_nil_or_concat names with rfl | ⟨front, name, rfl⟩
    · exact absurd rfl hne
    · rw [List.concat_eq_append] at *
      have hlink : ∀ link, node ≠ .link link := by
        rintro link rfl
        exact hunlinked _ _ (by simp) hnode
      rw [hon, walk_into_found ht hnode hlink hlimits.names]

/-- A path of names leads to a name that is missing in a folder. -/
theorem locate_join_missing (through : Bool) (ht : t.Closed) {name : String}
    (hnames : ∀ n ∈ names ++ [name], IsName n) (hlimits : InLimits p (names ++ [name]))
    (hroot : t.locate true (p.join ".") = .ok (.found folder (.folder time)))
    (hfolder : ∃ time, t.node? (folder ++ names.map Name.text) = some (.folder time))
    (hmissing : t.node? (folder ++ (names ++ [name]).map Name.text) = none) :
    t.locate through (p.join (relOf (names ++ [name]))) =
      .ok (.missing (folder ++ (names ++ [name]).map Name.text)) := by
  obtain ⟨on, hon⟩ := locate_join_eq through hnames (by simp) hlimits.noNull
    hlimits.length hroot
  obtain ⟨_, hfolder⟩ := hfolder
  rw [hon, walk_into_missing ht hfolder hmissing hlimits.names]

/-! ### Without the dot -/

/-- What a path leads to is found, and it is the folder if links are passed. -/
def Finds (through : Bool) (folder : Place) (time : Instant) (found : Except Trouble Target) : Prop :=
  ∃ place node, found = .ok (.found place node) ∧
    (through = true → place = folder ∧ node = .folder time)

/-- Through the last link, a folder is what a way finds. -/
theorem Finds.eq {found : Except Trouble Target} (h : Finds true folder time found) :
    found = .ok (.found folder (.folder time)) := by
  obtain ⟨_, _, hfound, hthrough⟩ := h
  obtain ⟨rfl, rfl⟩ := hthrough rfl
  exact hfound

theorem walk_nil_of_here {place : Place}
    (h : t.walk true follow [.here] place = .ok (.found folder (.folder time))) :
    Finds through folder time (t.walk through follow' [] place) := by
  simp only [walk] at h ⊢
  split at h
  · next hplace =>
    rw [hplace] at h ⊢
    cases h
    exact ⟨_, _, rfl, fun _ => ⟨rfl, rfl⟩⟩
  · cases h
  · cases h

/-- The last step of a way to a folder. -/
theorem walk_last_of_here
    (hfollow : ∀ place steps, follow place (steps ++ [.here]) = .ok (.found folder (.folder time)) →
      Finds through folder time (follow' place steps))
    {step : Step} {place : Place}
    (h : t.walk true follow [step, .here] place = .ok (.found folder (.folder time))) :
    Finds through folder time (t.walk through follow' [step] place) := by
  unfold walk at h ⊢
  cases hplace : t.node? place with
  | none => rw [hplace] at h; cases h
  | some node =>
    rw [hplace] at h
    cases node with
    | folder modified =>
      cases step with
      | here => exact walk_nil_of_here h
      | up => exact walk_nil_of_here h
      | into name =>
        by_cases hlong : maxNameBytes < name.utf8ByteSize
        · simp only [hlong, ↓reduceIte] at h
          cases h
        · simp only [hlong, ↓reduceIte] at h ⊢
          cases hchild : t.node? (place ++ [.text name]) with
          | none => rw [hchild] at h; cases h
          | some child =>
            rw [hchild] at h
            cases child with
            | link link =>
              cases through with
              | false => exact ⟨_, _, rfl, nofun⟩
              | true =>
                simp only [Bool.not_true, Bool.and_false, Bool.false_eq_true, ↓reduceIte] at h ⊢
                split at h
                · cases h
                · next hempty =>
                  rw [if_neg hempty, List.append_nil]
                  exact hfollow _ _ h
            | _ => exact walk_nil_of_here h
    | _ => cases h

theorem walk_of_here
    (hfollow : ∀ place steps, follow place (steps ++ [.here]) = .ok (.found folder (.folder time)) →
      Finds through folder time (follow' place steps))
    {steps : List Step} {place : Place}
    (h : t.walk true follow (steps ++ [.here]) place = .ok (.found folder (.folder time))) :
    Finds through folder time (t.walk through follow' steps place) := by
  induction steps generalizing place with
  | nil => exact walk_nil_of_here h
  | cons step steps ih =>
    by_cases hend : steps = []
    · subst hend
      exact walk_last_of_here hfollow h
    · have hmore : steps ++ [Step.here] ≠ [] := by simp
      rw [List.cons_append] at h
      cases t.moves step place with
      | on next hmove =>
        rw [hmove _ _ _ hmore] at h
        rw [hmove _ _ _ hend]
        exact ih h
      | link base target hmove =>
        rw [hmove _ _ _ hmore, ← List.append_assoc] at h
        rw [hmove _ _ _ hend]
        exact hfollow _ _ h
      | nowhere cause hmove =>
        rw [hmove _ _ _ hmore] at h
        cases h

theorem walkLinks_of_here (through : Bool) {links : Nat} {steps : List Step} {place : Place}
    (h : t.walkLinks true links place (steps ++ [.here]) = .ok (.found folder (.folder time))) :
    Finds through folder time (t.walkLinks through links place steps) := by
  induction links generalizing place steps with
  | zero => exact walk_of_here (fun _ _ hfail => by cases hfail) h
  | succ links ih => exact walk_of_here (fun _ _ => ih) h

/-- **A path whose dot leads to a folder** leads there itself, or to a link that is not passed. -/
theorem locate_of_locate_dot (through : Bool) (hne : p.text ≠ "")
    (h : t.locate true (p.join ".") = .ok (.found folder (.folder time))) :
    Finds through folder time (t.locate through p) := by
  have hdot : ".".toList.head? ≠ some '/' := by decide
  obtain ⟨hnull, -, hlength, hwalk⟩ := locate_eq_ok_iff.1 h
  rw [FilePath.isAbsolute_join hdot, FilePath.steps_join hdot] at hwalk
  rw [FilePath.text_join hdot] at hnull hlength
  have hwalk' : Finds through folder time
      (t.walkLinks through maxLinks (if p.isAbsolute then [] else t.current) p.steps) := by
    rcases p.steps_eq_before hne with hsteps | hsteps
    · rw [hsteps]
      exact walkLinks_of_here through hwalk
    · obtain ⟨on, hon⟩ := walkLinks_append_of_here through (List.cons_ne_nil .here []) hwalk
      rw [hsteps, hon]
      have hnode := node?_of_locate h
      exact ⟨folder, .folder time, by simp [walk, hnode], fun _ => ⟨rfl, rfl⟩⟩
  obtain ⟨place, node, hfound, hthrough⟩ := hwalk'
  refine ⟨place, node, locate_eq_ok_iff.2 ⟨?_, hne, ?_, hfound⟩, hthrough⟩
  · have hfront := noNull_of_append hnull
    rw [List.contains_eq_mem, decide_eq_false_iff_not] at hfront ⊢
    exact fun hmem => hfront (p.mem_front hmem)
  · have := p.utf8ByteSize_le_front
    rw [String.utf8ByteSize_append] at hlength
    omega

end FileTree
end Disk
end AlbumIndex
