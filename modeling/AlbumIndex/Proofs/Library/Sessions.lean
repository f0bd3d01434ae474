import AlbumIndex.Proofs.Load.Again
import AlbumIndex.Proofs.Query.Draining
import AlbumIndex.Proofs.Query.Stopping

/-!
# A library in use

While a library is in use, the disk under it changes, it is loaded again and again, and its callers
take the catalog that is in use, look things up in the catalogs that they have taken, begin searches
and draw from them.  All this happens in any order.

A load that fails for want of a root leaves everything as it was.  A load that succeeds puts the
catalog of its albums in use, whatever became of the small copies and of the aliases, and this
catalog stays in use up to the next load that succeeds.  Whoever has taken a catalog or begun a
search goes on with it: what is answered is what would be answered if nothing else had happened.

A load can also break off, if the calendar ends too soon after a date that the collection names.  Then
the catalog stays in use too, but some of the snapshots may have been kept already.

## Main definitions

* `Session` — a library in use, and what its callers hold.
* `Event`, `Reply`, `Session.step` — what happens, and what comes of it.
* `Session.after`, `Session.transcript`, `Session.drawn` — a run of events, its replies, and the
  replies to those who draw from one search.
* `Session.Moves` — what an event can do to catalogs and searches.

## Main results

* `Session.current_after` — a catalog stays in use while no load succeeds.
* `Session.held_after`, `Session.drawn_eq_play` — what was taken does not change.
* `Session.library_over_runs` — **the state of a library over any run.**
-/

namespace AlbumIndex

open Calendar Disk Query

/-! ### Sessions -/

/-- What is looked up in a catalog. -/
inductive Question where
  | rank (r : Rank)
  | identity (id : ImageId)
  | keyword (key : String)

/-- The images that a catalog has for a question. -/
def Question.answer (c : Catalog) : Question → List Image
  | .rank r => (c.imageAt? r).toList
  | .identity id => (c.image? id).toList
  | .keyword key => c.images key

/-- A library in use, and what its callers hold. -/
structure Session where
  disk : FileTree
  library : Library
  /-- The catalogs that were taken, in the order in which they were. -/
  held : List Catalog
  /-- The searches that were begun, in the order in which they were. -/
  searches : List Search

/-- What happens while a library is in use. -/
inductive Event where
  /-- Somebody changes the disk. -/
  | change (disk : FileTree)
  /-- The library is loaded.  What its extractor finds and its minifier makes may differ from load to
  load; a load that breaks off leaves some disk behind. -/
  | load (opts : LoadOptions) (extractor : Extractor) (minifier : Option Minifier)
    (broken : FileTree)
  /-- The catalog in use is taken. -/
  | hold
  /-- Something is looked up in a catalog that was taken. -/
  | look (number : Nat) (question : Question)
  /-- A search is begun on the catalog in use. -/
  | query (text : String) (opts : Query.Options)
  /-- A search is begun on a catalog that was taken. -/
  | queryHeld (number : Nat) (text : String) (opts : Query.Options)
  /-- Something is done with a search that was begun. -/
  | draw (number : Nat) (act : Search.Act)

/-- What comes of an event. -/
inductive Reply where
  | done
  | loaded (report : LoadReport)
  | failed (e : LoadError)
  | found (images : List Image)
  | drawn (answer : Option Search.Drawn)
  /-- The calendar has no room for the dates of a query. -/
  | refused (e : OutOfRange)
  /-- There is no catalog or search of the number. -/
  | unknown

/-- The act on the search of a number, if that is what happens. -/
def Event.actOn (number : Nat) : Event → Option Search.Act
  | .draw n act => if n = number then some act else none
  | _ => none

namespace Session

/-- The library as it is loaded, with an extractor and a minifier. -/
def equipped (s : Session) (extractor : Extractor) (minifier : Option Minifier) : Library :=
  { s.library with extractor, minifier }

/-- A session with one search more, if it could be begun. -/
def begun (s : Session) : Except OutOfRange Search → Reply × Session
  | .ok search => (.done, { s with searches := s.searches ++ [search] })
  | .error e => (.refused e, s)

/-- What comes of an event, and the session after it. -/
def step (s : Session) : Event → Reply × Session
  | .change disk => (.done, { s with disk })
  | .load opts extractor minifier broken =>
    match (s.equipped extractor minifier).load opts s.disk with
    | .ok (loaded, report, disk) =>
      (.loaded report, { s with disk, library := s.library.swap loaded.current })
    | .error (.cannotReadOriginals path cause) => (.failed (.cannotReadOriginals path cause), s)
    | .error (.outOfRange seconds) => (.failed (.outOfRange seconds), { s with disk := broken })
  | .hold => (.done, { s with held := s.held ++ [s.library.current] })
  | .look number question =>
    match s.held[number]? with
    | some c => (.found (question.answer c), s)
    | none => (.unknown, s)
  | .query text opts => s.begun (Search.ofText s.library.current text opts)
  | .queryHeld number text opts =>
    match s.held[number]? with
    | some c => s.begun (Search.ofText c text opts)
    | none => (.unknown, s)
  | .draw number act =>
    match s.searches[number]? with
    | some search =>
      (.drawn (search.act act).1, { s with searches := s.searches.set number (search.act act).2 })
    | none => (.unknown, s)

/-- The session after a run of events. -/
def after : List Event → Session → Session
  | [], s => s
  | e :: events, s => after events (s.step e).2

/-- The events of a run with their replies. -/
def transcript : List Event → Session → List (Event × Reply)
  | [], _ => []
  | e :: events, s => (e, (s.step e).1) :: transcript events (s.step e).2

/-- What was answered to those who draw from the search of a number. -/
def drawn (number : Nat) (events : List Event) (s : Session) : List (Option Search.Drawn) :=
  (s.transcript events).filterMap fun
    | (.draw n _, .drawn answer) => if n = number then some answer else none
    | _ => none

end Session

/-- The reply tells of a load that has succeeded. -/
def Reply.isLoaded : Reply → Bool
  | .loaded _ => true
  | _ => false

namespace Session

variable {s : Session}

@[simp] theorem after_nil (s : Session) : s.after [] = s := rfl

@[simp] theorem after_cons (e : Event) (events : List Event) (s : Session) :
    s.after (e :: events) = (s.step e).2.after events := rfl

@[simp] theorem transcript_cons (e : Event) (events : List Event) (s : Session) :
    s.transcript (e :: events) = (e, (s.step e).1) :: (s.step e).2.transcript events := rfl

/-! ### Loads -/

/-- **A load that fails for want of a root** leaves everything as it was. -/
theorem step_load_of_stat {cause : Trouble}
    (h : s.disk.stat s.library.config.originals = .error cause) (opts : LoadOptions)
    (extractor : Extractor) (minifier : Option Minifier) (broken : FileTree) :
    s.step (.load opts extractor minifier broken) =
      (.failed (.cannotReadOriginals s.library.config.originals cause), s) := by
  have hload : (s.equipped extractor minifier).loader.load opts s.disk =
      .error (.cannotReadOriginals s.library.config.originals cause) := by
    have hroot : s.disk.stat (s.equipped extractor minifier).loader.originals = .error cause := h
    rw [Loader.load, Loader.loadWith, hroot]
    rfl
  rw [step, Library.load_eq, hload]
  rfl

/-- **A load that succeeds** puts its catalog in use, and leaves what callers hold. -/
theorem step_load_of_ok {opts : LoadOptions} {extractor : Extractor} {minifier : Option Minifier}
    {loaded : Loaded} (h : (s.equipped extractor minifier).loader.load opts s.disk = .ok loaded)
    (broken : FileTree) :
    s.step (.load opts extractor minifier broken) =
      (.loaded ((s.equipped extractor minifier).reportOf opts loaded),
        { s with disk := loaded.tree, library := s.library.swap (s.library.catalogOf loaded) }) := by
  rw [step, Library.load_eq, h]
  rfl

/-! ### One event -/

theorem step_look {number : Nat} {c : Catalog} (h : s.held[number]? = some c)
    (question : Question) : s.step (.look number question) = (.found (question.answer c), s) := by
  rw [step, h]

theorem step_queryHeld {number : Nat} {c : Catalog} (h : s.held[number]? = some c) (text : String)
    (opts : Query.Options) :
    s.step (.queryHeld number text opts) = s.begun (Search.ofText c text opts) := by
  rw [step, h]

theorem step_draw {number : Nat} {search : Search} (h : s.searches[number]? = some search)
    (act : Search.Act) :
    s.step (.draw number act) =
      (.drawn (search.act act).1,
        { s with searches := s.searches.set number (search.act act).2 }) := by
  rw [step, h]

/-- What an event does to the catalogs and searches of a session: only a load that succeeds changes
the catalog in use, nobody loses a catalog that was taken, and a search is changed by those who draw
from it and by nothing else. -/
structure Moves (e : Event) (s : Session) (moved : Reply × Session) : Prop where
  current : moved.1.isLoaded = false → moved.2.library.current = s.library.current
  held : ∀ (number : Nat) (c : Catalog), s.held[number]? = some c →
    moved.2.held[number]? = some c
  searches : ∀ (number : Nat) (search : Search), s.searches[number]? = some search →
    moved.2.searches[number]? = some (search.played (e.actOn number).toList)

variable {e : Event}

/-- An event without a draw that leaves library, catalogs and searches as they are. -/
theorem Moves.of_same (he : ∀ number, e.actOn number = none) (reply : Reply) {s' : Session}
    (hlibrary : s'.library = s.library) (hheld : s'.held = s.held)
    (hsearches : s'.searches = s.searches) : Moves e s (reply, s') where
  current _ := by rw [hlibrary]
  held number c h := by rw [hheld, h]
  searches number search h := by
    rw [hsearches, h, he number]
    rfl

/-- Beginning a search adds it to those that were begun before. -/
theorem Moves.begun (he : ∀ number, e.actOn number = none)
    (outcome : Except OutOfRange Search) : Moves e s (s.begun outcome) := by
  cases outcome with
  | error cause => exact .of_same he _ rfl rfl rfl
  | ok search =>
    refine ⟨fun _ => rfl, fun _ _ h => h, ?_⟩
    intro number old h
    obtain ⟨hlt, -⟩ := List.getElem?_eq_some_iff.1 h
    rw [he number]
    exact (List.getElem?_append_left hlt).trans h

theorem Moves.load (opts : LoadOptions) (extractor : Extractor) (minifier : Option Minifier)
    (broken : FileTree) :
    Moves (.load opts extractor minifier broken) s (s.step (.load opts extractor minifier broken)) := by
  rw [step]
  cases (s.equipped extractor minifier).load opts s.disk with
  | ok outcome => exact ⟨nofun, fun _ _ h => h, fun _ _ h => h⟩
  | error cause => cases cause <;> exact .of_same (fun _ => rfl) _ rfl rfl rfl

theorem Moves.draw (number : Nat) (act : Search.Act) :
    Moves (.draw number act) s (s.step (.draw number act)) := by
  cases hsearch : s.searches[number]? with
  | none =>
    rw [step, hsearch]
    refine ⟨fun _ => rfl, fun _ _ h => h, ?_⟩
    intro other search h
    -- nobody draws from a search that is there
    have hne : number ≠ other := by
      rintro rfl
      rw [hsearch] at h
      cases h
    rw [Event.actOn, if_neg hne]
    exact h
  | some drawn =>
    rw [step_draw hsearch]
    refine ⟨fun _ => rfl, fun _ _ h => h, ?_⟩
    intro other search h
    rw [Event.actOn]
    by_cases hother : number = other
    · subst hother
      obtain rfl : drawn = search := Option.some.inj (hsearch.symm.trans h)
      obtain ⟨hlt, -⟩ := List.getElem?_eq_some_iff.1 h
      rw [if_pos rfl]
      exact List.getElem?_set_self hlt
    · rw [if_neg hother]
      exact (List.getElem?_set_ne hother).trans h

/-- **What any event does** to the catalogs and searches of a session. -/
theorem step_moves (s : Session) (e : Event) : Moves e s (s.step e) := by
  cases e with
  | change disk => exact .of_same (fun _ => rfl) _ rfl rfl rfl
  | load opts extractor minifier broken => exact .load opts extractor minifier broken
  | hold =>
    refine ⟨fun _ => rfl, ?_, fun _ _ h => h⟩
    intro number c h
    obtain ⟨hlt, -⟩ := List.getElem?_eq_some_iff.1 h
    exact (List.getElem?_append_left hlt).trans h
  | look number question =>
    rw [step]
    cases s.held[number]? <;> exact .of_same (fun _ => rfl) _ rfl rfl rfl
  | query text opts => exact .begun (fun _ => rfl) _
  | queryHeld number text opts =>
    rw [step]
    cases s.held[number]? with
    | none => exact .of_same (fun _ => rfl) _ rfl rfl rfl
    | some c => exact .begun (fun _ => rfl) _
  | draw number act => exact .draw number act

/-! ### Runs of events -/

/-- **A catalog stays in use** while no load succeeds. -/
theorem current_after {events : List Event}
    (h : ∀ entry ∈ s.transcript events, entry.2.isLoaded = false) :
    (s.after events).library.current = s.library.current := by
  induction events generalizing s with
  | nil => rfl
  | cons e events ih =>
    obtain ⟨hfirst, hrest⟩ := List.forall_mem_cons.1 h
    rw [after_cons, ih hrest, (step_moves s e).current hfirst]

/-- **A catalog that was taken** stays the one that it was. -/
theorem held_after {number : Nat} {c : Catalog} (h : s.held[number]? = some c)
    (events : List Event) : (s.after events).held[number]? = some c := by
  induction events generalizing s with
  | nil => exact h
  | cons e events ih =>
    have hnext := (step_moves s e).held number c h
    exact ih hnext

/-- What is answered to those who draw from a search, event by event. -/
theorem drawn_cons {number : Nat} {search : Search} (h : s.searches[number]? = some search)
    (e : Event) (events : List Event) :
    s.drawn number (e :: events) =
      search.play (e.actOn number).toList ++ (s.step e).2.drawn number events := by
  rw [drawn, transcript_cons, List.filterMap_cons]
  cases e with
  | draw n act =>
    by_cases hn : n = number
    · subst hn
      rw [step_draw h, Event.actOn, if_pos rfl]
      simp only [if_true]
      rfl
    · rw [Event.actOn, if_neg hn]
      cases hother : s.searches[n]? with
      | none =>
        rw [step, hother]
        rfl
      | some other =>
        rw [step_draw hother]
        simp only [if_neg hn]
        rfl
  | _ => rfl

/-- **A search answers as if nothing else happened**: what those get who draw from it depends on
what they do with it alone. -/
theorem drawn_eq_play {number : Nat} {search : Search} (h : s.searches[number]? = some search)
    (events : List Event) :
    s.drawn number events = search.play (events.filterMap (Event.actOn number)) := by
  induction events generalizing s search with
  | nil => rfl
  | cons e events ih =>
    rw [drawn_cons h, ih ((step_moves s e).searches number search h), ← Search.play_append]
    congr 1
    rw [List.filterMap_cons]
    cases e.actOn number <;> rfl

/-! ### Libraries over runs -/

/-- **The state of a library over any run.**  At any moment of a session:

* a load that cannot tell anything about the root of the collection fails and leaves everything as
  it was, the catalog in use and the whole disk;
* after a load that succeeds the catalog made from its albums is in use, whatever the minifier has
  done, with the aliases of the file if that can be read and without any if not; and the catalog in
  use stays while no load succeeds;
* a catalog that was taken stays the one that it was: what is looked up in it and the searches begun
  on it are those of this catalog;
* a search, just begun or partly drawn, gives what it would give if nothing else happened. -/
theorem library_over_runs (s : Session) :
    (∀ opts extractor minifier broken cause,
      s.disk.stat s.library.config.originals = .error cause →
      s.step (.load opts extractor minifier broken) =
        (.failed (.cannotReadOriginals s.library.config.originals cause), s)) ∧
    (∀ opts extractor minifier broken loaded,
      (s.equipped extractor minifier).loader.load opts s.disk = .ok loaded →
      ∃ report people, s.step (.load opts extractor minifier broken) =
          (.loaded report, { s with
            disk := loaded.tree
            library := s.library.swap (Catalog.ofAlbums loaded.albums people) }) ∧
        people = match loaded.tree.readText
            (s.library.config.staticFolder.join Library.aliasesName) with
          | .ok text => Aliases.parse text
          | .error _ => .empty) ∧
    (∀ later, (∀ entry ∈ s.transcript later, entry.2.isLoaded = false) →
      (s.after later).library.current = s.library.current) ∧
    ((s.step .hold).2.held[s.held.length]? = some s.library.current ∧
      ∀ number c later, s.held[number]? = some c →
        (∀ question, ((s.after later).step (.look number question)).1 = .found (question.answer c)) ∧
        ∀ text opts, (s.after later).step (.queryHeld number text opts) =
          (s.after later).begun (Search.ofText c text opts)) ∧
    (∀ text opts search, Search.ofText s.library.current text opts = .ok search →
      search.catalog = s.library.current ∧
        (s.step (.query text opts)).2.searches[s.searches.length]? = some search) ∧
    ∀ number search later, s.searches[number]? = some search →
      s.drawn number later = search.play (later.filterMap (Event.actOn number)) := by
  refine ⟨?_, ?_, ?_, ⟨?_, ?_⟩, ?_, ?_⟩
  · intro opts extractor minifier broken cause h
    exact step_load_of_stat h opts extractor minifier broken
  · intro opts extractor minifier broken loaded h
    exact ⟨_, _, step_load_of_ok h broken, rfl⟩
  · intro later h
    exact current_after h
  · exact List.getElem?_concat_length
  · intro number c later h
    have hlater := held_after h later
    refine ⟨?_, ?_⟩
    · intro question
      rw [step_look hlater]
    · intro text opts
      exact step_queryHeld hlater text opts
  · intro text opts search h
    refine ⟨Search.catalog_of_ofText h, ?_⟩
    rw [step, h]
    exact List.getElem?_concat_length
  · intro number search later h
    exact drawn_eq_play h later

/-- A collection of one image. -/
def imageDisk : FileTree :=
  { nodes := [([], .folder .epoch), ([.text "o"], .folder ⟨10, 0⟩),
      ([.text "o", .text "x.jpg"], .file [] ⟨5, 0⟩)]
    current := []
    clock := .epoch }

/-- A library that has not been loaded, on the disk with one image. -/
def sample : Session := ⟨imageDisk, Library.sample, [], []⟩

/-- Finds the same keyword everywhere. -/
def tagging : Extractor := fun _ item => ⟨["k"], item.fileMillis, item.image⟩

/-- The load of the tagged images, of which no small copies can be made. -/
def loadTagged : Event := .load ⟨false, true, false⟩ tagging (some fun _ => none) imageDisk

/-- After the disk has been lost the library cannot be loaded again; the catalog stays in use, and
who has begun a search for the image still gets it. -/
theorem library_over_runs_of_lost_disk :
    ∃ report s search, sample.step loadTagged = (.loaded report, s) ∧
      Search.ofText s.library.current "k" .default = .ok search ∧
      let lost := s.after [.query "k" .default, .change ⟨[], [], .epoch⟩]
      lost.step loadTagged = (.failed (.cannotReadOriginals ⟨"o"⟩ .notFound), lost) ∧
        lost.library.current = s.library.current ∧
        (lost.drawn 0 [loadTagged, .draw 0 .rank, .draw 0 .rank]).map Option.isSome =
          [true, false] := by
  have hload : ((sample.equipped tagging (some fun _ => none)).loader.load ⟨false, true, false⟩
      sample.disk).toOption.isSome = true := by decide +kernel
  have hplay : ((Search.ofText (sample.step loadTagged).2.library.current "k" .default).toOption.map
      fun search => (search.play [.rank, .rank]).map Option.isSome) = some [true, false] := by
    decide +kernel
  cases hloaded : (sample.equipped tagging (some fun _ => none)).loader.load ⟨false, true, false⟩
      sample.disk with
  | error e =>
    rw [hloaded] at hload
    cases hload
  | ok loaded =>
    obtain ⟨-, hloads, -, -, -, -⟩ := library_over_runs sample
    obtain ⟨report, people, hstep, -⟩ := hloads _ tagging (some fun _ => none) imageDisk loaded hloaded
    rw [show sample.step loadTagged = _ from hstep] at hplay
    generalize hs : { sample with
      disk := loaded.tree
      library := sample.library.swap (Catalog.ofAlbums loaded.albums people) } = s at hstep hplay
    cases hsearch : Search.ofText s.library.current "k" .default with
    | error e =>
      rw [hsearch] at hplay
      cases hplay
    | ok search =>
      rw [hsearch] at hplay
      refine ⟨report, s, search, hstep, hsearch, ?_⟩
      intro lost
      obtain ⟨hfails, -, -, -, -, hdraws⟩ := library_over_runs lost
      have hlost : lost = { s with disk := ⟨[], [], .epoch⟩, searches := s.searches ++ [search] } := by
        have hquery : s.step (.query "k" .default) = s.begun (.ok search) := by rw [step, hsearch]
        rw [show lost = ((s.step (.query "k" .default)).2.step (.change ⟨[], [], .epoch⟩)).2 from rfl,
          hquery]
        rfl
      have hlibrary : lost.library.config = sample.library.config := by
        rw [hlost, ← hs]
        rfl
      have hsearches : lost.searches[0]? = some search := by
        rw [hlost, ← hs]
        rfl
      have hstat : lost.disk.stat lost.library.config.originals = .error .notFound := by
        rw [hlibrary, hlost]
        rfl
      refine ⟨?_, ?_, ?_⟩
      · have hfailed := hfails ⟨false, true, false⟩ tagging (some fun _ => none) imageDisk _ hstat
        rw [hlibrary] at hfailed
        exact hfailed
      · rw [hlost]
      · rw [hdraws 0 search _ hsearches]
        exact Option.some.inj hplay

end Session
end AlbumIndex
