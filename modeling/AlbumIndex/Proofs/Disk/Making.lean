import AlbumIndex.Proofs.Disk.Places

/-!
# Making folders

Making a folder together with the folders around it begins with the path as a whole and goes back
along it only as long as a name on the way is missing.  So where a path leads to a folder already,
nothing is made; and where the folder around is there, one folder is made at most.

## Main results

* `FilePath.ancestors_cases` — only a path without names has nothing to be made.
* `FileTree.makeFolders_of_folder` — **where a folder is, nothing is made.**
* `FileTree.makeFolders_join` — **where no name on the way is missing, one folder is made at most.**
* `FileTree.locate_join_ne_notFound` — when no name on the way is missing.
-/

namespace AlbumIndex
namespace Disk

open Calendar Text

/-! ### Paths without names -/

namespace FilePath

theorem steps_of_snoc_slash (cs : List Char) :
    FilePath.steps ⟨String.ofList (cs ++ ['/'])⟩ = FilePath.steps ⟨String.ofList cs⟩ ++ [.here] := by
  have htext : String.ofList (cs ++ ['/']) = String.ofList cs ++ "/" ++ "" :=
    String.toList_inj.1 (by simp)
  rw [htext, steps_append]
  rfl

theorem eq_here_of_skipEmpty {cs : List Char} (h : skipEmpty cs = []) :
    ∀ step ∈ FilePath.steps ⟨String.ofList cs.reverse⟩, step = .here := by
  induction cs using skipEmpty.induct with
  | case1 cs ih =>
    rw [skipEmpty] at h
    rw [List.reverse_cons, steps_of_snoc_slash]
    simpa [or_imp, forall_and] using ih h
  | case2 cs ih =>
    rw [skipEmpty] at h
    have hslash := ih h
    rw [List.reverse_cons, steps_of_snoc_slash] at hslash
    have htext : String.ofList ('.' :: '/' :: cs).reverse = String.ofList cs.reverse ++ "/" ++ "." :=
      String.toList_inj.1 (by simp)
    rw [htext, steps_append]
    exact hslash
  | case3 cs hslash hdot =>
    rw [skipEmpty] at h
    · subst h
      decide
    · exact hslash
    · exact hdot

/-- Only a path without names has nothing to be made. -/
theorem ancestors_cases (p : FilePath) :
    p.ancestors = [] ∧ (∀ step ∈ p.steps, step = .here) ∨ ∃ around, p.ancestors = p :: around := by
  unfold ancestors ancestorsWithin
  cases hparent : p.parent? with
  | some q => exact Or.inr ⟨_, rfl⟩
  | none =>
    have hskip : skipEmpty p.text.toList.reverse = [] := by
      unfold parent? at hparent
      split at hparent
      · assumption
      · dsimp only at hparent
        split at hparent <;> cases hparent
    have hsteps := eq_here_of_skipEmpty hskip
    rw [List.reverse_reverse, String.ofList_toList] at hsteps
    exact Or.inl ⟨rfl, hsteps⟩

theorem ancestors_join {p : FilePath} {names : List String} (hnames : ∀ n ∈ names, IsName n)
    (hne : names ≠ []) :
    ∃ around, (p.join (relOf names)).ancestors = p.join (relOf names) :: around := by
  refine (ancestors_cases _).resolve_left fun ⟨_, hhere⟩ => ?_
  rw [steps_join_relOf hnames hne] at hhere
  obtain ⟨name, others, rfl⟩ := List.exists_cons_of_ne_nil hne
  cases hhere (.into name) (by simp [stepsInto])

/-! ### Slashes at the end -/

/-- The path without the slashes at its end. -/
def trimmed (p : FilePath) : FilePath :=
  ⟨String.ofList (p.text.toList.reverse.dropWhile (· == '/')).reverse⟩

theorem toList_eq_trimmed (p : FilePath) :
    ∃ k, p.text.toList = p.trimmed.text.toList ++ List.replicate k '/' := by
  have hslashes : ∀ c ∈ (p.text.toList.reverse.takeWhile (· == '/')), c = '/' := fun c hc => by
    simpa using List.all_eq_true.1 List.all_takeWhile c hc
  refine ⟨(p.text.toList.reverse.takeWhile (· == '/')).length, ?_⟩
  have hsplit := congrArg List.reverse
    (List.takeWhile_append_dropWhile (p := (· == '/')) (l := p.text.toList.reverse))
  rw [List.reverse_append, List.reverse_reverse, List.eq_replicate_of_mem hslashes,
    List.reverse_replicate] at hsplit
  rw [trimmed, String.toList_ofList]
  exact hsplit.symm

theorem steps_eq_trimmed (p : FilePath) :
    ∃ k, p.steps = p.trimmed.steps ++ List.replicate k .here ∧ (k = 0 → p.trimmed = p) := by
  obtain ⟨k, hchars⟩ := p.toList_eq_trimmed
  have hmore : ∀ k, FilePath.steps ⟨String.ofList (p.trimmed.text.toList ++ List.replicate k '/')⟩ =
      p.trimmed.steps ++ List.replicate k .here := by
    intro k
    induction k with
    | zero => simp
    | succ k ih =>
      rw [List.replicate_succ', ← List.append_assoc, steps_of_snoc_slash, ih, List.replicate_succ',
        List.append_assoc]
  refine ⟨k, ?_, fun hk => ?_⟩
  · rw [← hmore, ← hchars, String.ofList_toList]
  · rw [hk, List.replicate_zero, List.append_nil] at hchars
    exact eq_of_text (String.toList_inj.1 hchars.symm)

theorem trimmed_eq {p : FilePath} (h : p.text.toList.getLast? ≠ some '/') : p.trimmed = p := by
  obtain ⟨k, hchars⟩ := p.toList_eq_trimmed
  cases k with
  | zero =>
    rw [List.replicate_zero, List.append_nil] at hchars
    exact eq_of_text (String.toList_inj.1 hchars.symm)
  | succ k =>
    rw [hchars, List.replicate_succ', ← List.append_assoc, List.getLast?_concat] at h
    exact absurd rfl h

theorem getLast?_join_relOf {p : FilePath} {names : List String} (hnames : ∀ n ∈ names, IsName n)
    (hne : names ≠ []) : (p.join (relOf names)).text.toList.getLast? ≠ some '/' := by
  have hrel : (relOf names).toList ≠ [] :=
    mt String.toList_eq_nil_iff.1 (mt (relOf_eq_empty_iff hnames).1 hne)
  rw [text_join (head?_relOf_ne_slash hnames), String.toList_append, getLast?_append_of_ne_nil hrel]
  exact getLast?_relOf_ne_slash hnames

end FilePath

namespace FileTree

variable {t t' : FileTree} {through : Bool} {folder : Place} {time : Instant} {p : FilePath}
  {names : List String}

/-! ### Where a folder is -/

theorem makeFolder_eq {found : Except Trouble Target} :
    t.locate false (if p.trimmed.text = "" then p else p.trimmed) = found →
      t.makeFolder p =
        match found with
        | .ok (.found _ _) => .error .exists
        | .ok (.missing place) => .ok (t.put place (.folder t.clock))
        | .error e => .error e := by
  intro h
  unfold FilePath.trimmed at h
  rcases found with cause | (⟨place, node⟩ | place) <;> simp only [makeFolder, h]

/-- Slashes at the end of a way to a folder. -/
theorem walkLinks_of_heres (through : Bool) {links k : Nat} (hk : k ≠ 0) {steps : List Step} {place : Place}
    (h : t.walkLinks true links place (steps ++ List.replicate k .here) =
      .ok (.found folder (.folder time))) :
    Finds through folder time (t.walkLinks through links place steps) := by
  induction k with
  | zero => exact absurd rfl hk
  | succ k ih =>
    rw [List.replicate_succ', ← List.append_assoc] at h
    by_cases hlast : k = 0
    · subst hlast
      rw [List.replicate_zero, List.append_nil] at h
      exact walkLinks_of_here through h
    · exact ih hlast (walkLinks_of_here true h).eq

theorem finds_of_walk {follow follow' : Place → List Step → Except Trouble Target}
    (hfollow : ∀ place steps, follow place steps = .ok (.found folder (.folder time)) →
      Finds through folder time (follow' place steps))
    {steps : List Step} {place : Place}
    (h : t.walk true follow steps place = .ok (.found folder (.folder time))) :
    Finds through folder time (t.walk through follow' steps place) := by
  induction steps generalizing place with
  | nil => exact ⟨folder, .folder time, h, fun _ => ⟨rfl, rfl⟩⟩
  | cons step rest ih =>
    unfold walk at h ⊢
    split at h
    · cases step with
      | here => exact ih h
      | up => exact ih h
      | into name =>
        dsimp only at h ⊢
        split at h
        · cases h
        · next hshort =>
          rw [if_neg hshort]
          split at h
          · split at h <;> cases h
          · rw [Bool.not_true, Bool.and_false, if_neg Bool.false_ne_true] at h
            split at h
            · cases h
            · split
              · next hend =>
                refine ⟨_, _, rfl, fun hthrough => ?_⟩
                rw [hthrough, Bool.not_true, Bool.and_false] at hend
                cases hend
              · exact hfollow _ _ h
          · exact ih h
    · cases h
    · cases h

theorem finds_of_walkLinks (through : Bool) {links : Nat} {steps : List Step} {place : Place}
    (h : t.walkLinks true links place steps = .ok (.found folder (.folder time))) :
    Finds through folder time (t.walkLinks through links place steps) := by
  induction links generalizing place steps with
  | zero => exact finds_of_walk (fun _ _ hfail => by cases hfail) h
  | succ links ih => exact finds_of_walk (fun _ _ => ih) h

/-- A path that leads to a folder leads somewhere if no link is passed at its end. -/
theorem finds_of_locate (through : Bool)
    (h : t.locate true p = .ok (.found folder (.folder time))) :
    Finds through folder time (t.locate through p) := by
  obtain ⟨hnull, hempty, hlength, hwalk⟩ := locate_eq_ok_iff.1 h
  obtain ⟨place, node, hfound, hthrough⟩ := finds_of_walkLinks through hwalk
  exact ⟨place, node, locate_eq_ok_iff.2 ⟨hnull, hempty, hlength, hfound⟩, hthrough⟩

/-- A path that leads to a folder leads somewhere without the slashes at its end. -/
theorem locate_trimmed (h : t.locate true p = .ok (.found folder (.folder time))) :
    ∃ place node, t.locate false (if p.trimmed.text = "" then p else p.trimmed) =
      .ok (.found place node) := by
  by_cases hempty : p.trimmed.text = ""
  · rw [if_pos hempty]
    obtain ⟨place, node, hfound, -⟩ := finds_of_locate false h
    exact ⟨place, node, hfound⟩
  rw [if_neg hempty]
  obtain ⟨k, hsteps, hsame⟩ := p.steps_eq_trimmed
  by_cases hk : k = 0
  · rw [hsame hk]
    obtain ⟨place, node, hfound, -⟩ := finds_of_locate false h
    exact ⟨place, node, hfound⟩
  obtain ⟨hnull, -, hlength, hwalk⟩ := locate_eq_ok_iff.1 h
  obtain ⟨slashes, hchars⟩ := p.toList_eq_trimmed
  have htext : p.text = p.trimmed.text ++ String.ofList (List.replicate slashes '/') :=
    String.toList_inj.1 (by simpa using hchars)
  have habsolute : p.isAbsolute = p.trimmed.isAbsolute := by
    have hne' : p.trimmed.text.toList ≠ [] := mt String.toList_eq_nil_iff.1 hempty
    obtain ⟨c, cs, hcs⟩ := List.exists_cons_of_ne_nil hne'
    rw [FilePath.isAbsolute, FilePath.isAbsolute, hchars, hcs]
    rfl
  rw [hsteps, habsolute] at hwalk
  obtain ⟨place, node, hfound, -⟩ := walkLinks_of_heres false hk hwalk
  refine ⟨place, node, locate_eq_ok_iff.2 ⟨?_, hempty, ?_, hfound⟩⟩
  · rw [htext] at hnull
    exact noNull_of_append hnull
  · rw [htext, String.utf8ByteSize_append] at hlength
    omega

theorem isFolder_iff : t.isFolder p = true ↔
    ∃ folder time, t.locate true p = .ok (.found folder (.folder time)) := by
  unfold isFolder stat
  constructor
  · intro h
    split at h
    · next hstat =>
      split at hstat
      · next place node hlocate => cases hstat; exact ⟨place, _, hlocate⟩
      · cases hstat
      · cases hstat
    · cases h
  · rintro ⟨folder, time, hlocate⟩
    rw [hlocate]

/-- Where a path leads to a folder, none can be made. -/
theorem makeFolder_of_isFolder (h : t.isFolder p = true) : t.makeFolder p = .error .exists := by
  obtain ⟨folder, time, hlocate⟩ := isFolder_iff.1 h
  obtain ⟨place, node, htrimmed⟩ := locate_trimmed hlocate
  exact makeFolder_eq htrimmed

/-- **Where a folder is, nothing is made.** -/
theorem makeFolders_of_folder (h : t.locate true (p.join ".") = .ok (.found folder (.folder time))) :
    t.makeFolders p = (t, none) := by
  unfold makeFolders
  rcases p.ancestors_cases with ⟨hnone, -⟩ | ⟨around, haround⟩
  · rw [hnone]
    rfl
  have hne : p.text ≠ "" := by
    intro hempty
    have hroot : p = ⟨""⟩ := FilePath.eq_of_text hempty
    rw [hroot] at haround
    cases haround
  have hfolder : t.isFolder p = true := isFolder_iff.2 ⟨_, _, (locate_of_locate_dot true hne h).eq⟩
  simp [haround, makeMissing, makeFolder_of_isFolder hfolder, ensureFolder, hfolder]

/-! ### Below a folder -/

/-- A folder of names is made where the path leads. -/
theorem makeFolder_join (hnames : ∀ n ∈ names, IsName n) (hne : names ≠ []) :
    t.makeFolder (p.join (relOf names)) =
      match t.locate false (p.join (relOf names)) with
      | .ok (.found _ _) => .error .exists
      | .ok (.missing place) => .ok (t.put place (.folder t.clock))
      | .error e => .error e := by
  refine makeFolder_eq ?_
  rw [FilePath.trimmed_eq (FilePath.getLast?_join_relOf hnames hne), ite_self]

/-- **Where no name on the way is missing, one folder is made at most.** -/
theorem makeFolders_join (hnames : ∀ n ∈ names, IsName n) (hne : names ≠ [])
    (hway : t.locate false (p.join (relOf names)) ≠ .error .notFound) :
    t.makeFolders (p.join (relOf names)) = t.ensureFolder (p.join (relOf names)) := by
  obtain ⟨around, haround⟩ := FilePath.ancestors_join (p := p) hnames hne
  unfold makeFolders
  rw [haround, makeMissing]
  split
  · next hmake =>
    rw [makeFolder_join hnames hne] at hmake
    split at hmake
    · cases hmake
    · cases hmake
    · next hlocate =>
      cases hmake
      exact absurd hlocate hway
  · rfl

theorem makeFolders_join_missing (hnames : ∀ n ∈ names, IsName n) (hne : names ≠ []) {place : Place}
    (hlocate : t.locate false (p.join (relOf names)) = .ok (.missing place)) :
    t.makeFolders (p.join (relOf names)) = (t.put place (.folder t.clock), none) := by
  rw [makeFolders_join hnames hne (by rw [hlocate]; nofun), ensureFolder, makeFolder_join hnames hne,
    hlocate]

/-- What making a folder leaves where no name on the way is missing. -/
theorem makeFolders_join_fst (hnames : ∀ n ∈ names, IsName n) (hne : names ≠ [])
    (hway : t.locate false (p.join (relOf names)) ≠ .error .notFound) :
    (t.makeFolders (p.join (relOf names))).1 = t ∨
      ∃ place, t.locate false (p.join (relOf names)) = .ok (.missing place) ∧
        (t.makeFolders (p.join (relOf names))).1 = t.put place (.folder t.clock) := by
  rw [makeFolders_join hnames hne hway, ensureFolder, makeFolder_join hnames hne]
  split
  · next hmake =>
    split at hmake
    · cases hmake
    · next place hlocate =>
      cases hmake
      exact Or.inr ⟨place, hlocate, rfl⟩
    · cases hmake
  · exact Or.inl rfl

/-- A name on the way is missing only behind folders, and short names lead there. -/
theorem exists_missing_of_walk {follow : Place → List Step → Except Trouble Target}
    (hunlinked : t.UnlinkedBelow folder) {front : Place}
    (hfolder : ∃ time, t.node? (folder ++ front) = some (.folder time))
    (h : t.walk through follow (stepsInto names) (folder ++ front) = .error .notFound) :
    ∃ around name rest, names = around ++ name :: rest ∧ rest ≠ [] ∧
      (∃ time, t.node? (folder ++ front ++ around.map Name.text) = some (.folder time)) ∧
      t.node? (folder ++ front ++ (around ++ [name]).map Name.text) = none ∧
      ∀ n ∈ around ++ [name], n.utf8ByteSize ≤ maxNameBytes := by
  induction names generalizing front with
  | nil =>
    obtain ⟨_, hfolder⟩ := hfolder
    simp [stepsInto, walk, hfolder] at h
  | cons name names ih =>
    obtain ⟨_, hhere⟩ := hfolder
    rw [stepsInto, List.map_cons, walk, hhere] at h
    dsimp only at h
    split at h
    · cases h
    · next hshort =>
      split at h
      · next hmissing =>
        split at h
        · cases h
        · next hend =>
          refine ⟨[], name, names, rfl, by simpa using hend, ⟨_, by simpa using hhere⟩, ?_, ?_⟩
          · simpa using hmissing
          · simpa using hshort
      · next link hlink =>
        rw [List.append_assoc] at hlink
        exact absurd hlink (hunlinked _ _ (by simp))
      · next child hlink hchild =>
        cases child with
        | folder stamp =>
          rw [List.append_assoc] at h hchild
          obtain ⟨around, name', rest, rfl, hrest, haround, hmissing, hshorts⟩ :=
            ih ⟨stamp, hchild⟩ h
          refine ⟨name :: around, name', rest, rfl, hrest, ?_, ?_, ?_⟩
          · simpa using haround
          · simpa using hmissing
          · exact List.forall_mem_cons.2 ⟨Nat.le_of_not_lt hshort, hshorts⟩
        | link q => exact absurd rfl (hlink q)
        | file bytes stamp => cases names <;> simp [-List.append_assoc, walk, hchild] at h
        | device stamp => cases names <;> simp [-List.append_assoc, walk, hchild] at h

/-- **When no name on the way is missing**: each of them is there, if the one before it is a folder
and the path so far is not too long. -/
theorem locate_join_ne_notFound (hnames : ∀ n ∈ names, IsName n) (hne : names ≠ [])
    (hroot : t.locate true (p.join ".") = .ok (.found folder (.folder time)))
    (hunlinked : t.UnlinkedBelow folder)
    (hway : ∀ around name rest, names = around ++ name :: rest → rest ≠ [] →
      (∃ time, t.node? (folder ++ around.map Name.text) = some (.folder time)) →
      InLimits p (around ++ [name]) → t.node? (folder ++ (around ++ [name]).map Name.text) ≠ none) :
    t.locate through (p.join (relOf names)) ≠ .error .notFound := by
  intro h
  by_cases hnull : (p.join (relOf names)).text.toList.contains '\x00' = false
  · by_cases hlength : (p.join (relOf names)).text.utf8ByteSize ≤ maxPathBytes
    · obtain ⟨on, hon⟩ := locate_join_eq through hnames hne hnull hlength hroot
      rw [hon] at h
      have hfolder : ∃ time, t.node? (folder ++ []) = some (.folder time) :=
        ⟨time, by rw [List.append_nil, node?_of_locate hroot]⟩
      obtain ⟨around, name, rest, rfl, hrest, haround, hmissing, hshort⟩ :=
        exists_missing_of_walk hunlinked hfolder (by rwa [List.append_nil])
      rw [List.append_nil] at haround hmissing
      have hnames' : ∀ n ∈ around ++ [name] ++ rest, IsName n := by simpa using hnames
      obtain ⟨more, htext⟩ := text_join_append (p := p) hnames'
      rw [List.append_assoc, List.singleton_append] at htext
      rw [htext] at hnull hlength
      rw [String.utf8ByteSize_append] at hlength
      exact hway around name rest rfl hrest haround
        ⟨noNull_of_append hnull, by omega, hshort⟩ hmissing
    · rw [locate, if_neg (by rw [hnull]; exact Bool.false_ne_true),
        if_neg (p.text_join_relOf_ne_empty hnames hne), if_pos (Nat.lt_of_not_le hlength)] at h
      cases h
  · rw [locate, if_pos (by simpa using hnull)] at h
    cases h

end FileTree
end Disk
end AlbumIndex
