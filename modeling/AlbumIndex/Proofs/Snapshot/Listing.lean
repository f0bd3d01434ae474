import AlbumIndex.Proofs.Snapshot.Refresh
import AlbumIndex.Proofs.Sorting

/-!
# A listing and its snapshot

The names of a listing are distinct, so there is only one order for it, and a snapshot taken anew
does not depend on the order in which the entries came.  It has one item for each image and video,
with the time of the listing, and the names of the subfolders; and a file is looked into only if the
older snapshot does not know it as it is, or if that is asked for.

What was taken anew knows every file of its listing.  So taking it anew once more, unforced, looks
into no file, whatever an extractor would find there now, and leaves all items as they are.

## Main definitions

* `DistinctNames` — no two entries of a listing have the same name.
* `Snapshot.Knows` — a snapshot knows the file of an entry as it is.
* `Refreshed.Follows` — what a snapshot taken anew has to do with its listing.

## Main results

* `sortedByName_eq_of_perm` — a listing has one order.
* `Snapshot.refresh_again` — a snapshot taken anew stays as it is when taken anew once more.
* `Snapshot.refresh_follows` — **a snapshot taken anew follows its listing, and nothing else.**
-/

namespace AlbumIndex

open Calendar Disk

/-! ### Endings -/

theorem hasEnding_iff {endings : List String} {name : String} :
    hasEnding endings name = true ↔ ∃ ending ∈ endings, ending.toList <:+ name.toList := by
  simp [hasEnding]

/-- No name ends like an image and like a video. -/
theorem hasEnding_video_of_image {name : String} (h : hasEnding imageEndings name = true) :
    hasEnding videoEndings name = false := by
  have hapart : ∀ a ∈ imageEndings, ∀ b ∈ videoEndings,
      ¬ a.toList <:+ b.toList ∧ ¬ b.toList <:+ a.toList := by decide
  obtain ⟨a, ha, hname⟩ := hasEnding_iff.1 h
  rw [← Bool.not_eq_true]
  intro hvideo
  obtain ⟨b, hb, hname'⟩ := hasEnding_iff.1 hvideo
  -- of two endings of one name, one is an ending of the other
  rcases List.suffix_or_suffix_of_suffix hname hname' with hab | hba
  · exact (hapart a ha b hb).1 hab
  · exact (hapart a ha b hb).2 hba

/-- Whether an image or video is a video is told by its name alone. -/
theorem Entry.isVideo_eq {e : Entry} (h : e.isMedia = true) :
    (e.kind == .video) = hasEnding videoEndings e.name := by
  unfold Entry.isMedia Entry.kind at *
  split
  · next hignored => simp [hignored] at h
  · next hlisted =>
    split
    · next hfolder => simp [hlisted, hfolder] at h
    · next hfile =>
      split
      · next himage => rw [hasEnding_video_of_image himage]; rfl
      · next hnoImage =>
        split
        · next hvideo => rw [hvideo]; rfl
        · next hnoVideo => simp [hlisted, hfile, hnoImage, hnoVideo] at h

/-! ### The order of a listing -/

/-- No two entries of the listing have the same name. -/
def DistinctNames (entries : List Entry) : Prop := (entries.map Entry.name).Nodup

instance (entries : List Entry) : Decidable (DistinctNames entries) :=
  inferInstanceAs (Decidable (List.Nodup _))

theorem sortedByName_perm (entries : List Entry) : (sortedByName entries).Perm entries :=
  List.mergeSort_perm entries _

section Order

variable {entries entries' : List Entry}

/-- **A listing has one order**, whichever way its entries come. -/
theorem sortedByName_eq_of_perm (hnames : DistinctNames entries) (hperm : entries'.Perm entries) :
    sortedByName entries' = sortedByName entries := by
  have hsorted : (sortedByName entries').Perm (sortedByName entries) :=
    ((sortedByName_perm entries').trans hperm).trans (sortedByName_perm entries).symm
  refine eq_of_perm_of_distinct hsorted (pairwise_le_mergeSort Entry.name entries')
    (pairwise_le_mergeSort Entry.name entries) ?_
  exact (((sortedByName_perm entries').trans hperm).map Entry.name).nodup_iff.2 hnames

/-- The names of the entries that pass a test, in the order of the listing. -/
def namesWhere (keep : Entry → Bool) (entries : List Entry) : List String :=
  ((sortedByName entries).filter keep).map Entry.name

theorem mem_namesWhere {keep : Entry → Bool} {name : String} :
    name ∈ namesWhere keep entries ↔ ∃ e ∈ entries, keep e = true ∧ e.name = name := by
  simp only [namesWhere, List.mem_map, List.mem_filter, (sortedByName_perm entries).mem_iff, and_assoc]

theorem namesWhere_pairwise (hnames : DistinctNames entries) (keep : Entry → Bool) :
    (namesWhere keep entries).Pairwise (· < ·) := by
  have hsorted := pairwise_lt_of_distinct (pairwise_le_mergeSort Entry.name entries)
    (((sortedByName_perm entries).map Entry.name).nodup_iff.2 hnames)
  exact List.pairwise_map.2 (hsorted.filter keep)

theorem DistinctNames.listedOnce (hnames : DistinctNames entries) {e : Entry} (he : e ∈ entries) :
    ListedOnce entries e := by
  unfold ListedOnce
  induction entries with
  | nil => cases he
  | cons first rest ih =>
    obtain ⟨hfirst, hrest⟩ := List.nodup_cons.1 hnames
    rcases List.mem_cons.1 he with rfl | he
    · -- nothing of this name follows
      have hnone : rest.filter (fun x => x.name == e.name) = [] := by
        rw [List.filter_eq_nil_iff]
        intro x hx hname
        exact hfirst (beq_iff_eq.1 hname ▸ List.mem_map_of_mem hx)
      rw [List.filter_cons_of_pos (by simp), hnone]
    · have hne : first.name ≠ e.name := by
        intro hname
        exact hfirst (hname ▸ List.mem_map_of_mem he)
      rw [List.filter_cons_of_neg (by simpa using hne)]
      exact ih hrest he

end Order

/-! ### Files that are known -/

/-- The snapshot knows the file of the entry as it is: its item of that name, the last one if there
are several, has the time of the listing and is of the same kind. -/
def Snapshot.Knows (s : Snapshot) (e : Entry) : Prop :=
  ∃ item, s.item? e.name = some item ∧ item.fileMillis = some e.modified.round.toMillis ∧
    item.isVideo = hasEnding videoEndings e.name

namespace Snapshot

variable {folder : FilePath} {old : Snapshot} {extractor : Extractor} {force : Bool} {e : Entry}
  {entries entries' : List Entry}

theorem isVideo_nextItem : (nextItem folder old extractor force e).isVideo = (e.kind == .video) := by
  unfold nextItem
  cases h : old.kept? force e with
  | none => exact e.isVideo_extract _ _ _
  | some o =>
    obtain ⟨-, hcurrent⟩ := Option.filter_eq_some_iff.1 h
    simp only [Bool.and_eq_true, Item.isCurrent, beq_iff_eq] at hcurrent
    exact hcurrent.2.2

/-- A file is looked into if that is asked for or it is not known. -/
theorem kept?_isNone_iff (hmedia : e.isMedia = true) :
    (old.kept? force e).isNone = true ↔ force = true ∨ ¬ old.Knows e := by
  rw [Option.isNone_iff_eq_none, kept?, Option.filter_eq_none_iff]
  simp only [Bool.and_eq_true, Bool.not_eq_true', Item.isCurrent, beq_iff_eq, e.isVideo_eq hmedia,
    not_and]
  cases force with
  | true => simp
  | false => simp [Knows, Entry.fileMillis]

/-- A known file keeps its item. -/
theorem nextItem_of_knows (hforce : force = false) (hmedia : e.isMedia = true) (h : old.Knows e) :
    old.item? e.name = some (nextItem folder old extractor force e) := by
  cases hkept : old.kept? force e with
  | none =>
    have hlooked : force = true ∨ ¬ old.Knows e :=
      (kept?_isNone_iff hmedia).1 (Option.isNone_iff_eq_none.2 hkept)
    simp [hforce, h] at hlooked
  | some o =>
    rw [nextItem, hkept, Option.getD_some]
    exact (kept?_eq_some hkept).1

/-- Any other file gets the item that is made by looking into it. -/
theorem nextItem_of_looked (hmedia : e.isMedia = true) (h : force = true ∨ ¬ old.Knows e) :
    nextItem folder old extractor force e = e.extract folder (old.item? e.name) extractor := by
  have hkept := Option.isNone_iff_eq_none.1 ((kept?_isNone_iff hmedia).2 h)
  rw [nextItem, hkept, Option.getD_none]

/-! ### Once more -/

/-- A snapshot taken anew knows every file of its listing. -/
theorem kept?_refresh (hnames : DistinctNames entries) (he : e ∈ entries) (hmedia : e.isMedia = true) :
    (old.refresh folder entries extractor force).snapshot.kept? false e =
      some (nextItem folder old extractor force e) := by
  have hitem : (old.refresh folder entries extractor force).snapshot.item? e.name =
      some (nextItem folder old extractor force e) := item?_refresh hmedia (hnames.listedOnce he)
  rw [kept?, hitem, Option.filter_some, if_pos]
  simp [Item.isCurrent, fileMillis_nextItem, isVideo_nextItem]

/-- **A snapshot taken anew stays as it is** when it is taken anew once more from the same listing,
whatever stamp it was given, and no file is looked into. -/
theorem refresh_again (hnames : DistinctNames entries) (folder folder' : FilePath) (old : Snapshot)
    (extractor extractor' : Extractor) (force : Bool) (stamp : Option Int64) :
    ({ (old.refresh folder entries extractor force).snapshot with stamp } : Snapshot).refresh folder'
        entries extractor' false =
      ⟨(old.refresh folder entries extractor force).snapshot, []⟩ := by
  have hkept : ∀ e ∈ (sortedByName entries).filter Entry.isMedia,
      ({ (old.refresh folder entries extractor force).snapshot with stamp } : Snapshot).kept? false e =
        some (nextItem folder old extractor force e) := by
    intro e he
    obtain ⟨hsorted, hmedia⟩ := List.mem_filter.1 he
    -- the stamp says nothing about files
    exact kept?_refresh hnames ((sortedByName_perm entries).subset hsorted) hmedia
  have hitems : ((sortedByName entries).filter Entry.isMedia).map (nextItem folder'
      { (old.refresh folder entries extractor force).snapshot with stamp } extractor' false) =
      ((sortedByName entries).filter Entry.isMedia).map (nextItem folder old extractor force) := by
    apply List.map_congr_left
    intro e he
    rw [nextItem, hkept e he, Option.getD_some]
  have hcalls : (sortedByName entries).filter (fun e => e.isMedia &&
      (({ (old.refresh folder entries extractor force).snapshot with stamp } : Snapshot).kept? false
        e).isNone) = [] := by
    rw [List.filter_eq_nil_iff]
    intro e he hlooked
    rw [Bool.and_eq_true] at hlooked
    rw [hkept e (List.mem_filter.2 ⟨he, hlooked.1⟩)] at hlooked
    exact Bool.false_ne_true hlooked.2
  rw [refresh_eq, hitems, hcalls, refresh_eq]
  rfl

end Snapshot

/-! ### What follows from a listing -/

/-- What a snapshot taken anew has to do with its listing, the snapshot before, and an extractor. -/
structure Refreshed.Follows (r : Refreshed) (folder : FilePath) (entries : List Entry) (old : Snapshot)
    (extractor : Extractor) (force : Bool) : Prop where
  stamp : r.snapshot.stamp = none
  items_ascending : (r.snapshot.items.map Item.name).Pairwise (· < ·)
  /-- The items are those of the images and videos. -/
  items : ∀ name, name ∈ r.snapshot.items.map Item.name ↔
    ∃ e ∈ entries, e.isMedia = true ∧ e.name = name
  /-- What the item of an image or video says.  The item of a known file is the one it had, and any
  other is made by looking into the file. -/
  item : ∀ e ∈ entries, e.isMedia = true → ∃ item ∈ r.snapshot.items, item.name = e.name ∧
    item.fileMillis = some e.modified.round.toMillis ∧
    item.isVideo = hasEnding videoEndings e.name ∧
    (force = false → old.Knows e → old.item? e.name = some item) ∧
    (force = true ∨ ¬ old.Knows e → item = e.extract folder (old.item? e.name) extractor)
  subfolders_ascending : r.snapshot.subfolders.Pairwise (· < ·)
  /-- The subfolders are those of the listing. -/
  subfolders : ∀ name, name ∈ r.snapshot.subfolders ↔
    ∃ e ∈ entries, e.kind = .subfolder ∧ e.name = name
  /-- The files that were looked into, each once and in the order of their names. -/
  calls : ∃ names : List String, r.calls = names.map folder.join ∧ names.Pairwise (· < ·) ∧
    ∀ name, name ∈ names ↔
      ∃ e ∈ entries, e.isMedia = true ∧ e.name = name ∧ (force = true ∨ ¬ old.Knows e)

namespace Snapshot

variable {entries : List Entry}

theorem follows_refresh (hnames : DistinctNames entries) (folder : FilePath) (old : Snapshot)
    (extractor : Extractor) (force : Bool) :
    (old.refresh folder entries extractor force).Follows folder entries old extractor force := by
  have hitems : (((sortedByName entries).filter Entry.isMedia).map
      (nextItem folder old extractor force)).map Item.name = namesWhere Entry.isMedia entries := by
    rw [List.map_map, namesWhere]
    exact List.map_congr_left fun e _ => name_nextItem
  rw [refresh_eq]
  refine ⟨rfl, ?_, ?_, ?_, namesWhere_pairwise hnames _, ?_, ?_⟩
  · rw [hitems]
    exact namesWhere_pairwise hnames _
  · intro name
    rw [hitems, mem_namesWhere]
  · intro e he hmedia
    refine ⟨_, List.mem_map_of_mem (List.mem_filter.2 ⟨(sortedByName_perm entries).symm.subset he,
      hmedia⟩), name_nextItem, fileMillis_nextItem, ?_, ?_, ?_⟩
    · rw [isVideo_nextItem, e.isVideo_eq hmedia]
    · intro hforce hknows
      exact nextItem_of_knows hforce hmedia hknows
    · exact nextItem_of_looked hmedia
  · intro name
    have hmem : name ∈ namesWhere (fun e => e.kind == .subfolder) entries ↔
        ∃ e ∈ entries, (e.kind == .subfolder) = true ∧ e.name = name := mem_namesWhere
    simpa [namesWhere] using hmem
  · refine ⟨namesWhere (fun e => e.isMedia && (old.kept? force e).isNone) entries, ?_,
      namesWhere_pairwise hnames _, fun name => ?_⟩
    · rw [namesWhere, List.map_map]
      rfl
    · rw [mem_namesWhere]
      refine exists_congr fun e => and_congr_right fun _ => ?_
      rw [Bool.and_eq_true]
      constructor
      · rintro ⟨⟨hmedia, hlooked⟩, hname⟩
        exact ⟨hmedia, hname, (kept?_isNone_iff hmedia).1 hlooked⟩
      · rintro ⟨hmedia, hname, hlooked⟩
        exact ⟨⟨hmedia, (kept?_isNone_iff hmedia).2 hlooked⟩, hname⟩

/-- **A snapshot taken anew follows its listing.**  It has one item for each image and video and the
names of the subfolders; the order in which the entries came does not matter; and taken anew once
more, unforced and with any extractor, it stays as it is. -/
theorem refresh_follows (hnames : DistinctNames entries) (folder : FilePath) (old : Snapshot)
    (extractor : Extractor) (force : Bool) :
    (old.refresh folder entries extractor force).Follows folder entries old extractor force ∧
      (∀ entries' : List Entry, entries'.Perm entries →
        old.refresh folder entries' extractor force = old.refresh folder entries extractor force) ∧
      ∀ (entries' : List Entry) (folder' : FilePath) (extractor' : Extractor) (stamp : Option Int64),
        entries'.Perm entries →
        ({ (old.refresh folder entries extractor force).snapshot with stamp } : Snapshot).refresh
            folder' entries' extractor' false =
          ⟨(old.refresh folder entries extractor force).snapshot, []⟩ := by
  have horder : ∀ (entries' : List Entry), entries'.Perm entries → ∀ (s : Snapshot) folder extractor
      force, s.refresh folder entries' extractor force = s.refresh folder entries extractor force := by
    intro entries' hperm s folder extractor force
    rw [refresh_eq, refresh_eq, sortedByName_eq_of_perm hnames hperm]
  refine ⟨follows_refresh hnames folder old extractor force, ?_, ?_⟩
  · intro entries' hperm
    exact horder entries' hperm old folder extractor force
  · intro entries' folder' extractor' stamp hperm
    rw [horder entries' hperm]
    exact refresh_again hnames folder folder' old extractor extractor' force stamp

/-- A folder with a subfolder, a note, a new video, a changed image and one that is known by the last
of its two items. -/
theorem refresh_follows_five_entries : ∃ (entries : List Entry) (old : Snapshot),
    DistinctNames entries ∧ entries.length = 5 ∧
      (old.refresh ⟨"trips"⟩ entries .fileTime false).Follows ⟨"trips"⟩ entries old .fileTime false ∧
      (old.refresh ⟨"trips"⟩ entries .fileTime false).calls = [⟨"trips/b.jpg"⟩, ⟨"trips/c.webm"⟩] ∧
      old.refresh ⟨"trips"⟩ entries.reverse .fileTime false =
        old.refresh ⟨"trips"⟩ entries .fileTime false ∧
      (Snapshot.refresh ⟨"trips"⟩ entries.reverse (old.refresh ⟨"trips"⟩ entries .fileTime
        false).snapshot .fileTime false).calls = [] := by
  let entries : List Entry := [⟨"walks", false, ⟨1, 0⟩⟩, ⟨"c.webm", true, ⟨7, 500000000⟩⟩,
    ⟨"b.jpg", true, ⟨20, 0⟩⟩, ⟨"x.txt", true, ⟨1, 0⟩⟩, ⟨"a.jpg", true, ⟨10, 0⟩⟩]
  let sorted : List Entry := [⟨"a.jpg", true, ⟨10, 0⟩⟩, ⟨"b.jpg", true, ⟨20, 0⟩⟩,
    ⟨"c.webm", true, ⟨7, 500000000⟩⟩, ⟨"walks", false, ⟨1, 0⟩⟩, ⟨"x.txt", true, ⟨1, 0⟩⟩]
  let old : Snapshot := ⟨some 1000, [⟨"a.jpg", some 5000, none, ["lost"], none, false⟩,
    ⟨"b.jpg", some 5000, none, ["rome"], none, false⟩,
    ⟨"a.jpg", some 10000, none, ["wood"], none, false⟩], ["walks"]⟩
  have hnames : DistinctNames entries := by decide
  have hsorted : sortedByName entries = sorted := by
    have hperm : entries.Perm sorted := by decide
    refine eq_of_perm_of_distinct ((sortedByName_perm entries).trans hperm)
      (pairwise_le_mergeSort Entry.name entries) (by decide) ?_
    exact ((sortedByName_perm entries).map Entry.name).nodup_iff.2 hnames
  have hcalls : (old.refresh ⟨"trips"⟩ entries .fileTime false).calls =
      [⟨"trips/b.jpg"⟩, ⟨"trips/c.webm"⟩] := by
    rw [refresh_eq, hsorted]
    decide +kernel
  obtain ⟨hfollows, horder, hagain⟩ := refresh_follows hnames ⟨"trips"⟩ old .fileTime false
  refine ⟨entries, old, hnames, rfl, hfollows, hcalls, horder _ entries.reverse_perm, ?_⟩
  have hsame := hagain entries.reverse ⟨"trips"⟩ .fileTime
    (old.refresh ⟨"trips"⟩ entries .fileTime false).snapshot.stamp entries.reverse_perm
  exact congrArg Refreshed.calls hsame

end Snapshot
end AlbumIndex
