import AlbumIndex.Snapshot.Refresh

/-!
# What a snapshot taken anew holds

A snapshot taken anew has one item for each image and video of the listing, in the order of the
names, and the names of the subfolders.  The item of a file that has not changed is the one it had
before; every other file is looked into.

Over many runs, each beginning with the snapshot that the one before has left, what was once found
out about an image stays known: a later run puts something else in its place only if the extractor
finds it.  Each field has its own history.  A video keeps what its first item says.

## Main definitions

* `Snapshot.kept?`, `Snapshot.nextItem` — the item of an unchanged file, and the item that any file
  gets.
* `Run`, `afterRuns` — one snapshot taken anew, and the snapshot after several runs.
* `found` — what the extractor found in a file, run by run.
* `Fact` — something known about an image that a gap is filled in for.

## Main results

* `Snapshot.refresh_eq` — items, subfolders and calls of a snapshot taken anew.
* `Snapshot.item?_refresh` — the item of a file that is listed once.
* `Fact.afterRuns` — a fact is what the latest look has found out.
* `metadata_survives` — **what is known of an image or a video after any number of runs.**
-/

namespace AlbumIndex

open Calendar Disk

/-! ### One snapshot -/

/-- The entry is an image or a video. -/
def Entry.isMedia (e : Entry) : Bool := e.kind == .image || e.kind == .video

/-- The listing in the order of the names. -/
def sortedByName (entries : List Entry) : List Entry :=
  entries.mergeSort fun a b => decide (a.name ≤ b.name)

/-- What is known of a file before anyone looks into it. -/
def Entry.newItem (e : Entry) : Item :=
  if e.kind == .video then Item.newVideo e.name e.fileMillis else Item.newImage e.name e.fileMillis

namespace Snapshot

/-- The item of a file that is not looked into, because it has not changed. -/
def kept? (old : Snapshot) (force : Bool) (e : Entry) : Option Item :=
  (old.item? e.name).filter fun o => !force && o.isCurrent e

/-- The item that an image or video gets. -/
def nextItem (folder : FilePath) (old : Snapshot) (extractor : Extractor) (force : Bool) (e : Entry) :
    Item :=
  (old.kept? force e).getD (e.extract folder (old.item? e.name) extractor)

variable {folder : FilePath} {entries : List Entry} {old : Snapshot} {extractor : Extractor}
  {force : Bool}

theorem refreshEntry_eq (r : Refreshed) (e : Entry) :
    refreshEntry folder old extractor force r e =
      ⟨⟨r.snapshot.stamp,
          r.snapshot.items ++ (if e.isMedia then [nextItem folder old extractor force e] else []),
          r.snapshot.subfolders ++ (if e.kind == .subfolder then [e.name] else [])⟩,
        r.calls ++
          if e.isMedia && (old.kept? force e).isNone then [folder.join e.name] else []⟩ := by
  have hmedia : e.isMedia = (e.kind == .image || e.kind == .video) := rfl
  have hkept : (old.item? e.name).filter (fun o => !force && o.isCurrent e) = old.kept? force e := rfl
  unfold refreshEntry nextItem
  rw [hkept]
  cases hkind : e.kind with
  | ignored => simp [hmedia, hkind]
  | other => simp [hmedia, hkind]
  | subfolder => simp [hmedia, hkind]
  | image => cases old.kept? force e <;> simp [hmedia, hkind]
  | video => cases old.kept? force e <;> simp [hmedia, hkind]

/-- **A snapshot taken anew**: an item for each image and video, the names of the subfolders, and
the files that were looked into, all in the order of the names. -/
theorem refresh_eq :
    old.refresh folder entries extractor force =
      ⟨⟨none, ((sortedByName entries).filter Entry.isMedia).map (nextItem folder old extractor force),
          ((sortedByName entries).filter fun e => e.kind == .subfolder).map Entry.name⟩,
        ((sortedByName entries).filter fun e => e.isMedia && (old.kept? force e).isNone).map
          fun e => folder.join e.name⟩ := by
  have hfold : ∀ (sorted : List Entry) (r : Refreshed),
      sorted.foldl (refreshEntry folder old extractor force) r =
        ⟨⟨r.snapshot.stamp,
            r.snapshot.items ++ (sorted.filter Entry.isMedia).map (nextItem folder old extractor force),
            r.snapshot.subfolders ++ (sorted.filter fun e => e.kind == .subfolder).map Entry.name⟩,
          r.calls ++ (sorted.filter fun e => e.isMedia && (old.kept? force e).isNone).map
            fun e => folder.join e.name⟩ := by
    intro sorted
    induction sorted with
    | nil => simp
    | cons e sorted ih =>
      intro r
      rw [List.foldl_cons, ih, refreshEntry_eq]
      simp only [List.filter_cons, List.append_assoc]
      -- each of the three lists has the entry in front, or has not
      split <;> split <;> split <;> simp
  exact hfold (sortedByName entries) ⟨.empty, []⟩

/-! ### The item of one file -/

theorem item?_eq_getLast? (s : Snapshot) (name : String) :
    s.item? name = (s.items.filter fun i => i.name == name).getLast? := by
  rw [item?, ← List.head?_filter, List.filter_reverse, List.head?_reverse]

theorem name_of_item?_eq_some {s : Snapshot} {name : String} {item : Item}
    (h : s.item? name = some item) : item.name = name :=
  beq_iff_eq.1 (List.find?_some (p := fun i : Item => i.name == name) h)

end Snapshot

theorem Entry.name_extract (e : Entry) (folder : FilePath) (old : Option Item)
    (extractor : Extractor) : (e.extract folder old extractor).name = e.name := by
  unfold Entry.extract
  cases old with
  | none => cases h : e.kind == .video <;> rfl
  | some o => cases h : e.kind == .video <;> rfl

theorem Entry.fileMillis_extract (e : Entry) (folder : FilePath) (old : Option Item)
    (extractor : Extractor) : (e.extract folder old extractor).fileMillis = some e.fileMillis := by
  unfold Entry.extract
  cases old with
  | none => cases h : e.kind == .video <;> rfl
  | some o => cases h : e.kind == .video <;> rfl

theorem Entry.isVideo_extract (e : Entry) (folder : FilePath) (old : Option Item)
    (extractor : Extractor) : (e.extract folder old extractor).isVideo = (e.kind == .video) := by
  unfold Entry.extract
  cases old with
  | none => cases h : e.kind == .video <;> rfl
  | some o => cases h : e.kind == .video <;> rfl

namespace Snapshot

variable {folder : FilePath} {old : Snapshot} {extractor : Extractor} {force : Bool} {e : Entry}

theorem kept?_eq_some {o : Item} (h : old.kept? force e = some o) :
    old.item? e.name = some o ∧ o.fileMillis = some e.fileMillis := by
  obtain ⟨hitem, hcurrent⟩ := Option.filter_eq_some_iff.1 h
  simp only [Bool.and_eq_true, Item.isCurrent, beq_iff_eq] at hcurrent
  exact ⟨hitem, hcurrent.2.1⟩

theorem name_nextItem : (nextItem folder old extractor force e).name = e.name := by
  unfold nextItem
  cases h : old.kept? force e with
  | none => exact e.name_extract _ _ _
  | some o => exact name_of_item?_eq_some (kept?_eq_some h).1

/-- The time kept for a file is that of the listing. -/
theorem fileMillis_nextItem :
    (nextItem folder old extractor force e).fileMillis = some e.fileMillis := by
  unfold nextItem
  cases h : old.kept? force e with
  | none => exact e.fileMillis_extract _ _ _
  | some o => exact (kept?_eq_some h).2

end Snapshot

/-- The entry is the only one of its name in the listing. -/
def ListedOnce (entries : List Entry) (e : Entry) : Prop :=
  entries.filter (fun x => x.name == e.name) = [e]

instance (entries : List Entry) (e : Entry) : Decidable (ListedOnce entries e) :=
  inferInstanceAs (Decidable (_ = _))

/-- **The item of a file that is listed once** is the one made for it. -/
theorem Snapshot.item?_refresh {folder : FilePath} {entries : List Entry} {old : Snapshot}
    {extractor : Extractor} {force : Bool} {e : Entry} (hmedia : e.isMedia = true)
    (honce : ListedOnce entries e) :
    (old.refresh folder entries extractor force).snapshot.item? e.name =
      some (nextItem folder old extractor force e) := by
  have hsorted : (sortedByName entries).filter (fun x => x.name == e.name) = [e] := by
    have hperm := (List.mergeSort_perm entries fun a b => decide (a.name ≤ b.name)).filter
      fun x => x.name == e.name
    rw [honce] at hperm
    exact List.perm_singleton.1 hperm
  have hnames : ((fun i : Item => i.name == e.name) ∘ nextItem folder old extractor force) =
      fun x => x.name == e.name := funext fun x => by rw [Function.comp, name_nextItem]
  have hfiltered : ((sortedByName entries).filter Entry.isMedia).filter (fun x => x.name == e.name) =
      [e] := by
    have hcomm : ∀ x : Entry, (x.name == e.name && x.isMedia) = (x.isMedia && x.name == e.name) :=
      fun x => Bool.and_comm _ _
    rw [List.filter_filter, funext hcomm, ← List.filter_filter, hsorted,
      List.filter_cons_of_pos hmedia]
    rfl
  rw [refresh_eq, item?_eq_getLast?, List.filter_map, hnames, hfiltered]
  rfl

/-! ### Several runs -/

/-- What a snapshot is taken anew with, apart from the snapshot before. -/
structure Run where
  folder : FilePath
  entries : List Entry
  extractor : Extractor
  force : Bool

/-- The snapshot after a run. -/
def Run.after (r : Run) (s : Snapshot) : Snapshot :=
  (s.refresh r.folder r.entries r.extractor r.force).snapshot

/-- The snapshot after several runs, each of which begins with what the one before has left. -/
def afterRuns (runs : List Run) (s : Snapshot) : Snapshot := runs.foldl (fun s r => r.after s) s

@[simp] theorem afterRuns_nil (s : Snapshot) : afterRuns [] s = s := rfl

@[simp] theorem afterRuns_cons (r : Run) (runs : List Run) (s : Snapshot) :
    afterRuns (r :: runs) s = afterRuns runs (r.after s) := rfl

/-- What the extractor finds in the file of an entry, if the run looks into it. -/
def Run.look (r : Run) (s : Snapshot) (e : Entry) : Option Findings :=
  if (s.kept? r.force e).isSome then none else some (r.extractor (r.folder.join e.name) e.newItem)

/-- The run lists the file of a name once, as a file of the given kind. -/
def Run.Lists (r : Run) (name : String) (kind : EntryKind) (e : Entry) : Prop :=
  e.name = name ∧ e.kind = kind ∧ ListedOnce r.entries e

instance (r : Run) (name : String) (kind : EntryKind) (e : Entry) :
    Decidable (r.Lists name kind e) := inferInstanceAs (Decidable (_ ∧ _ ∧ _))

/-- What was found in a file, look by look, as long as it is listed. -/
def found (name : String) : List Run → Snapshot → List Findings
  | [], _ => []
  | r :: runs, s =>
    ((r.entries.find? fun e => e.name == name).bind (r.look s)).toList ++
      found name runs (r.after s)

section Lists

variable {s : Snapshot} {r : Run} {name : String} {kind : EntryKind} {e : Entry}

theorem Run.Lists.entry (h : r.Lists name kind e) :
    (r.entries.find? fun x => x.name == name) = some e := by
  obtain ⟨rfl, -, honce⟩ := h
  rw [← List.head?_filter, honce]
  rfl

theorem Run.Lists.item?_after (h : r.Lists name kind e) (hmedia : e.isMedia = true) (s : Snapshot) :
    (r.after s).item? name = some (Snapshot.nextItem r.folder s r.extractor r.force e) := by
  obtain ⟨rfl, -, honce⟩ := h
  exact Snapshot.item?_refresh hmedia honce

theorem Run.look_eq_some (h : s.kept? r.force e = none) :
    r.look s e = some (r.extractor (r.folder.join e.name) e.newItem) := by
  rw [look, h]
  rfl

end Lists

/-- What was found in a file that every run lists, with one run more in front. -/
theorem found_cons {r : Run} {name : String} {kind : EntryKind} {e : Entry}
    (h : r.Lists name kind e) (runs : List Run) (s : Snapshot) :
    found name (r :: runs) s = (r.look s e).toList ++ found name runs (r.after s) := by
  rw [found, h.entry]
  rfl

theorem Entry.extract_image {e : Entry} (hkind : e.kind = .image) (folder : FilePath)
    (old : Option Item) (extractor : Extractor) :
    e.extract folder old extractor =
      match old with
      | none => e.newItem.extracted (extractor (folder.join e.name) e.newItem)
      | some o => (e.newItem.extracted (extractor (folder.join e.name) e.newItem)).mergeImage o := by
  unfold Entry.extract Entry.newItem
  cases old <;> simp [hkind]

theorem Entry.extract_video {e : Entry} (hkind : e.kind = .video) (folder : FilePath)
    (old : Option Item) (extractor : Extractor) :
    e.extract folder old extractor =
      match old with
      | none => e.newItem.extracted (extractor (folder.join e.name) e.newItem)
      | some o => (e.newItem.extracted (extractor (folder.join e.name) e.newItem)).mergeVideo o := by
  unfold Entry.extract Entry.newItem
  cases old <;> simp [hkind]

/-! ### The facts about an image -/

/-- Something that may be known about an image: what the extractor finds takes the place of what was
known before, and what it does not find leaves a gap that is filled in. -/
structure Fact (γ : Type) where
  ofItem : Item → Option γ
  ofFindings : Findings → Option γ
  /-- What is known after a look is what was found. -/
  ofItem_extracted : ∀ (item : Item) (f : Findings), ofItem (item.extracted f) = ofFindings f
  /-- A gap is filled in from the older item. -/
  ofItem_mergeImage : ∀ item old : Item, ofItem (item.mergeImage old) = (ofItem item).or (ofItem old)

namespace Fact

/-- When the picture was taken. -/
def itemTime : Fact Int64 where
  ofItem := Item.itemMillis
  ofFindings := Findings.itemMillis
  ofItem_extracted _ _ := rfl
  ofItem_mergeImage _ _ := Option.orElse_eq_or

/-- One of the attributes of an image. -/
def ofAttribute {γ : Type} (get : ImageAttributes → Option γ) (hunknown : get .unknown = none)
    (horElse : ∀ a b : ImageAttributes, get (a.orElse b) = (get a).or (get b)) : Fact γ where
  ofItem item := item.image.bind get
  ofFindings f := f.image.bind get
  ofItem_extracted _ _ := rfl
  ofItem_mergeImage item old := by
    rw [Item.mergeImage]
    cases old.image with
    | none => simp
    | some o =>
      cases item.image with
      | none => simp [horElse, hunknown]
      | some a => simp [horElse]

def height : Fact UInt32 := ofAttribute ImageAttributes.height rfl fun _ _ => Option.orElse_eq_or
def width : Fact UInt32 := ofAttribute ImageAttributes.width rfl fun _ _ => Option.orElse_eq_or
def rotation : Fact Int32 := ofAttribute ImageAttributes.rotation rfl fun _ _ => Option.orElse_eq_or
def stereo : Fact Stereo := ofAttribute ImageAttributes.stereo rfl fun _ _ => Option.orElse_eq_or

variable {γ : Type} (fact : Fact γ)

/-- What a snapshot knows about a file. -/
def known (s : Snapshot) (name : String) : Option γ := (s.item? name).bind fact.ofItem

/-- What the latest of several looks has found, of those that have found anything. -/
def latest (looks : List Findings) : Option γ := looks.reverse.findSome? fact.ofFindings

theorem latest_append (first rest : List Findings) :
    fact.latest (first ++ rest) = (fact.latest rest).or (fact.latest first) := by
  rw [latest, List.reverse_append, List.findSome?_append]
  rfl

theorem latest_toList (look : Option Findings) :
    fact.latest look.toList = look.bind fact.ofFindings := by
  cases look with
  | none => rfl
  | some f => simp [latest]

/-- A run puts what it has found in the place of what was known. -/
theorem known_after {r : Run} {name : String} {e : Entry} (h : r.Lists name .image e)
    (s : Snapshot) :
    fact.known (r.after s) name = ((r.look s e).bind fact.ofFindings).or (fact.known s name) := by
  have hkind := h.2.1
  rw [known, h.item?_after (by simp [Entry.isMedia, hkind]), known, ← h.1, Snapshot.nextItem]
  cases hkept : s.kept? r.force e with
  | some o =>
    rw [(Snapshot.kept?_eq_some hkept).1, Run.look, hkept]
    rfl
  | none =>
    rw [Run.look_eq_some hkept, Option.getD_none, Entry.extract_image hkind]
    cases s.item? e.name with
    | none => simp [fact.ofItem_extracted]
    | some o => simp [fact.ofItem_mergeImage, fact.ofItem_extracted]

/-- **What is known after several runs** is what the latest look has found, or else what was known
before. -/
theorem known_afterRuns {runs : List Run} {name : String}
    (h : ∀ r ∈ runs, ∃ e, r.Lists name .image e) (s : Snapshot) :
    fact.known (AlbumIndex.afterRuns runs s) name =
      (fact.latest (found name runs s)).or (fact.known s name) := by
  induction runs generalizing s with
  | nil => rfl
  | cons r runs ih =>
    obtain ⟨⟨e, he⟩, hruns⟩ := List.forall_mem_cons.1 h
    rw [afterRuns_cons, ih hruns, fact.known_after he, found_cons he, latest_append, latest_toList,
      Option.or_assoc]

end Fact

/-! ### Keywords -/

theorem cleanKeywords_cleanKeywords (keywords : List String) :
    cleanKeywords (cleanKeywords keywords) = cleanKeywords keywords := by
  have hclean : ∀ k ∈ cleanKeywords keywords, String.ofList (k.toList.filter (· ≠ '\n')) = k := by
    intro k hk
    obtain ⟨raw, -, rfl⟩ := List.mem_map.1 (List.mem_filter.1 hk).1
    rw [String.toList_ofList, List.filter_filter]
    simp
  have hmap : (cleanKeywords keywords).map (fun k => String.ofList (k.toList.filter (· ≠ '\n'))) =
      cleanKeywords keywords := by
    rw [List.map_congr_left hclean, List.map_id']
  rw [cleanKeywords, hmap, cleanKeywords, List.filter_filter]
  simp

/-- The keywords that a snapshot has for a file. -/
def keywordsOf (s : Snapshot) (name : String) : List String :=
  ((s.item? name).map Item.keywords).getD []

/-- What the latest of several looks has found that has found any keywords. -/
def latestKeywords (looks : List Findings) : Option (List String) :=
  (looks.reverse.find? fun f => !f.keywords.isEmpty).map Findings.keywords

theorem latestKeywords_append (first rest : List Findings) :
    latestKeywords (first ++ rest) = (latestKeywords rest).or (latestKeywords first) := by
  rw [latestKeywords, List.reverse_append, List.find?_append, Option.map_or]
  rfl

/-- The keywords found in a run, or the ones before, cleaned if the run has found none. -/
theorem keywordsOf_after {r : Run} {name : String} {e : Entry} (h : r.Lists name .image e)
    (s : Snapshot) :
    keywordsOf (r.after s) name =
      match r.look s e with
      | none => keywordsOf s name
      | some f => if f.keywords.isEmpty then cleanKeywords (keywordsOf s name) else f.keywords := by
  have hkind := h.2.1
  rw [keywordsOf, h.item?_after (by simp [Entry.isMedia, hkind]), keywordsOf, ← h.1,
    Snapshot.nextItem]
  cases hkept : s.kept? r.force e with
  | some o =>
    rw [(Snapshot.kept?_eq_some hkept).1, Run.look, hkept]
    rfl
  | none =>
    rw [Run.look_eq_some hkept, Option.getD_none, Entry.extract_image hkind]
    cases s.item? e.name with
    | none =>
      -- there is nothing to clean
      cases hfound : (r.extractor (r.folder.join e.name) e.newItem).keywords <;>
        simp [Item.extracted, hfound, cleanKeywords]
    | some o => simp [Item.mergeImage, Item.extracted]

/-- **The keywords after several runs** are the latest ones found, or else those from before, as
they were or cleaned. -/
theorem keywordsOf_afterRuns {runs : List Run} {name : String}
    (h : ∀ r ∈ runs, ∃ e, r.Lists name .image e) (s : Snapshot) :
    ∃ keywords, keywords = (latestKeywords (found name runs s)).getD (keywordsOf s name) ∧
      (keywordsOf (afterRuns runs s) name = keywords ∨
        keywordsOf (afterRuns runs s) name = cleanKeywords keywords) := by
  induction runs generalizing s with
  | nil => exact ⟨_, rfl, Or.inl rfl⟩
  | cons r runs ih =>
    obtain ⟨⟨e, he⟩, hruns⟩ := List.forall_mem_cons.1 h
    obtain ⟨_, rfl, hlater⟩ := ih hruns (r.after s)
    refine ⟨_, rfl, ?_⟩
    rw [afterRuns_cons, found_cons he, latestKeywords_append]
    cases hrest : latestKeywords (found name runs (r.after s)) with
    | some keywords =>
      rw [hrest] at hlater
      exact hlater
    | none =>
      -- no later look has found any, so only this run and the cleaning of later ones count
      rw [hrest, Option.getD_none, keywordsOf_after he] at hlater
      rw [Option.none_or]
      cases hlook : r.look s e with
      | none =>
        rw [hlook] at hlater
        exact hlater
      | some f =>
        rw [hlook] at hlater
        cases hf : f.keywords.isEmpty with
        | true =>
          simp only [hf, if_true, cleanKeywords_cleanKeywords, or_self] at hlater
          exact Or.inr (by simpa [latestKeywords, hf] using hlater)
        | false => simpa [latestKeywords, hf] using hlater

/-! ### Videos -/

/-- A run leaves the keywords and the time of a known video. -/
theorem item?_after_video {r : Run} {name : String} {e : Entry} (h : r.Lists name .video e)
    {s : Snapshot} {first : Item} (hfirst : s.item? name = some first) :
    ∃ item, (r.after s).item? name = some item ∧ item.keywords = first.keywords ∧
      item.itemMillis = first.itemMillis := by
  have hkind := h.2.1
  refine ⟨_, h.item?_after (by simp [Entry.isMedia, hkind]) s, ?_⟩
  rw [← h.1] at hfirst
  rw [Snapshot.nextItem]
  cases hkept : s.kept? r.force e with
  | some o =>
    obtain rfl := Option.some.inj (hfirst.symm.trans (Snapshot.kept?_eq_some hkept).1)
    exact ⟨rfl, rfl⟩
  | none =>
    rw [Option.getD_none, Entry.extract_video hkind, hfirst]
    exact ⟨rfl, rfl⟩

theorem item?_afterRuns_video {runs : List Run} {name : String}
    (h : ∀ r ∈ runs, ∃ e, r.Lists name .video e) {s : Snapshot} {first : Item}
    (hfirst : s.item? name = some first) :
    ∃ item, (afterRuns runs s).item? name = some item ∧ item.keywords = first.keywords ∧
      item.itemMillis = first.itemMillis := by
  induction runs generalizing s first with
  | nil => exact ⟨first, hfirst, rfl, rfl⟩
  | cons r runs ih =>
    obtain ⟨⟨e, he⟩, hruns⟩ := List.forall_mem_cons.1 h
    obtain ⟨middle, hmiddle, hkeywords, htime⟩ := item?_after_video he hfirst
    obtain ⟨item, hitem, hkeywords', htime'⟩ := ih hruns hmiddle
    exact ⟨item, hitem, hkeywords'.trans hkeywords, htime'.trans htime⟩

/-! ### What survives -/

/-- The time kept for a file is that of the last listing. -/
theorem fileMillis_afterRuns {runs : List Run} {r : Run} {name : String} {kind : EntryKind} {e : Entry}
    (hkind : kind = .image ∨ kind = .video) (h : r.Lists name kind e) (s : Snapshot) :
    ∃ item, (afterRuns (runs ++ [r]) s).item? name = some item ∧
      item.fileMillis = some e.modified.round.toMillis := by
  have hmedia : e.isMedia = true := by
    rw [Entry.isMedia, h.2.1]
    rcases hkind with rfl | rfl <;> rfl
  rw [afterRuns, List.foldl_append]
  exact ⟨_, h.item?_after hmedia _, Snapshot.fileMillis_nextItem⟩

/-- After several runs a fact about a file is what the latest look that found it has found, or else
what the first snapshot knew. -/
def Fact.Survives {γ : Type} (fact : Fact γ) (name : String) (runs : List Run) (s : Snapshot) : Prop :=
  fact.known (afterRuns runs s) name = (fact.latest (found name runs s)).or (fact.known s name)

/-- **What is known of a file survives any number of runs.**  Of an image that every run lists once,
the time of the picture, height, width, rotation and stereo offsets each survive on their own, and
its keywords are the latest that were found, or else the first ones, as they were or cleaned.  Of a
video, keywords and time stay those of any item it ever had.  The time of the file is that of the
last listing. -/
theorem metadata_survives (name : String) (runs : List Run) (s : Snapshot) :
    ((∀ r ∈ runs, ∃ e, r.Lists name .image e) →
      (Fact.itemTime.Survives name runs s ∧ Fact.height.Survives name runs s ∧
        Fact.width.Survives name runs s ∧ Fact.rotation.Survives name runs s ∧
        Fact.stereo.Survives name runs s) ∧
      ∃ keywords, keywords = (latestKeywords (found name runs s)).getD (keywordsOf s name) ∧
        (keywordsOf (afterRuns runs s) name = keywords ∨
          keywordsOf (afterRuns runs s) name = cleanKeywords keywords)) ∧
    ((∀ r ∈ runs, ∃ e, r.Lists name .video e) → ∀ before after first, runs = before ++ after →
      (afterRuns before s).item? name = some first →
        ∃ item, (afterRuns runs s).item? name = some item ∧ item.keywords = first.keywords ∧
          item.itemMillis = first.itemMillis) ∧
    ∀ before last kind e, (kind = .image ∨ kind = .video) → runs = before ++ [last] →
      last.Lists name kind e → ∃ item, (afterRuns runs s).item? name = some item ∧
        item.fileMillis = some e.modified.round.toMillis := by
  refine ⟨fun h => ⟨?_, keywordsOf_afterRuns h s⟩, ?_, ?_⟩
  · exact ⟨Fact.itemTime.known_afterRuns h s, Fact.height.known_afterRuns h s,
      Fact.width.known_afterRuns h s, Fact.rotation.known_afterRuns h s,
      Fact.stereo.known_afterRuns h s⟩
  · rintro h before after first rfl hfirst
    rw [afterRuns, List.foldl_append]
    exact item?_afterRuns_video (fun r hr => h r (List.mem_append_right _ hr)) hfirst
  · rintro before last kind e hkind rfl hlast
    exact fileMillis_afterRuns hkind hlast s

/-- An image that is looked into twice in three runs: first its height is found but no keywords,
then it has not changed, and in the end keywords and a time are found, but no attributes. -/
theorem metadata_survives_two_looks : ∃ (runs : List Run) (s final : Snapshot), runs.length = 3 ∧
    (∀ r ∈ runs, ∃ e, r.Lists "a.jpg" .image e) ∧ final = afterRuns runs s ∧
      (found "a.jpg" runs s).length = 2 ∧ Fact.itemTime.known final "a.jpg" = some 7000 ∧
      Fact.height.known final "a.jpg" = some 480 ∧ Fact.width.known final "a.jpg" = some 640 ∧
      Fact.rotation.known final "a.jpg" = none ∧ Fact.stereo.known final "a.jpg" = none ∧
      keywordsOf final "a.jpg" = ["rome"] := by
  let entry : Entry := ⟨"a.jpg", true, ⟨10, 0⟩⟩
  let looking (force : Bool) (f : Findings) : Run := ⟨⟨"trips"⟩, [entry], fun _ _ => f, force⟩
  let runs : List Run := [looking false ⟨[], none, some ⟨some 480, none, none, none⟩⟩,
    looking false ⟨["lost"], none, none⟩, looking true ⟨["rome"], some 7000, none⟩]
  let s : Snapshot := ⟨none, [⟨"a.jpg", some 5000, some 3000, ["par\nis"],
    some ⟨some 1, some 640, none, none⟩, false⟩], []⟩
  have hlisted : ∀ r ∈ runs, ∃ e, r.Lists "a.jpg" .image e := by
    have hentry : ∀ r ∈ runs, r.entries = [entry] := by simp [runs, looking]
    intro r hr
    refine ⟨entry, rfl, by decide, ?_⟩
    rw [ListedOnce, hentry r hr]
    decide
  have hfound : found "a.jpg" runs s = [⟨[], none, some ⟨some 480, none, none, none⟩⟩,
      ⟨["rome"], some 7000, none⟩] := by decide +kernel
  obtain ⟨⟨htime, hheight, hwidth, hrotation, hstereo⟩, _, rfl, hkeywords⟩ :=
    (metadata_survives "a.jpg" runs s).1 hlisted
  rw [Fact.Survives, hfound] at htime hheight hwidth hrotation hstereo
  rw [hfound] at hkeywords
  have hrome : cleanKeywords ["rome"] = ["rome"] := by decide +kernel
  refine ⟨runs, s, _, rfl, hlisted, rfl, by rw [hfound]; rfl, htime, hheight, hwidth, hrotation,
    hstereo, ?_⟩
  exact hkeywords.elim id fun h => h.trans hrome

end AlbumIndex
