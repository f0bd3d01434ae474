import AlbumIndex.Load.Crew
import AlbumIndex.Proofs.Load.Coverage
import Mathlib.Data.Set.Finite.Lattice
import Mathlib.Data.Finset.Dedup

/-!
# The schedules of a crew

A crew may take its steps in many orders.  Whatever the order, a request that has been made is in
one place at a time: still to be handed out, on its way out, with a worker, or on its way back as an
answer; and an answer that is taken makes way for the requests that follow from it.  So the
coordinator's number of outstanding requests is right, there is always someone who can go on while
it is not zero, and as requests make a tree, none is made twice.

Each request goes through five steps and no more.  Thus all schedules are as long as one another,
and when the last step is done all requests are answered.  What a crew brings home is put in the
order of index times and paths, which no two albums share, so the order in which the answers came
back cannot be told from it.

## Main definitions

* `Asked`, `RequestTree` — the requests that follow from a first one, and when they make a tree.
* `Crew.unanswered`, `Crew.requests` — the requests without an answer taken, and all of them.
* `Crew.Run` — so many steps of a crew.
* `Crew.OnCourse` — what holds of a crew at any time.

## Main results

* `Crew.Step.moves` — **what a step does to the requests.**
* `Crew.exists_step` — **a crew with outstanding requests is never stuck.**
* `Crew.requests_nodup` — **no path is requested twice.**
* `Crew.schedules` — all schedules come to an end, and to the same one.
-/

namespace AlbumIndex

open Disk

variable {α β : Type}

/-! ### Requests that make a tree -/

/-- The requests that a crew has to see to if it starts with this one. -/
inductive Asked (answer : α → Option (Found α β)) (root : α) : α → Prop where
  | root : Asked answer root root
  /-- A request that follows from an answer. -/
  | further {r s : α} (around : Asked answer root r) (mem : s ∈ Crew.further (answer r)) :
      Asked answer root s

/-- The requests that follow from this one come to an end. -/
inductive FiniteBelow (answer : α → Option (Found α β)) : α → Prop where
  | intro {r : α} (below : ∀ s ∈ Crew.further (answer r), FiniteBelow answer s) :
      FiniteBelow answer r

/-- The requests for the folders of a finite tree: from a folder follow those for its subfolders,
whose names are different. -/
structure RequestTree (answer : α → Option (Found α FolderLoad)) (path : α → String) (root : α) :
    Prop where
  finite : FiniteBelow answer root
  path_root : path root = ""
  paths_further : ∀ r, Asked answer root r → ∃ names : List String, names.Nodup ∧
    (∀ n ∈ names, IsName n) ∧ (Crew.further (answer r)).map path = names.map (joinRel (path r))
  /-- The album of a folder has its path. -/
  path_album : ∀ r f, Asked answer root r → answer r = some f → f.result.album.rel = path r

section Trees

variable {answer : α → Option (Found α β)} {root : α}

/-- A request is the first one, or follows from one of those after it. -/
theorem asked_iff {s : α} :
    Asked answer root s ↔ s = root ∨ ∃ r ∈ Crew.further (answer root), Asked answer r s := by
  constructor
  · intro h
    induction h with
    | root => exact Or.inl rfl
    | further _ mem ih =>
      rcases ih with rfl | ⟨r, hr, hasked⟩
      · exact Or.inr ⟨_, mem, .root⟩
      · exact Or.inr ⟨r, hr, hasked.further mem⟩
  · rintro (rfl | ⟨r, hr, hasked⟩)
    · exact .root
    · induction hasked with
      | root => exact Asked.root.further hr
      | further _ mem ih => exact ih.further mem

theorem finite_asked (h : FiniteBelow answer root) : {r | Asked answer root r}.Finite := by
  induction h with
  | intro below ih =>
    rename_i r
    have hbelow : (⋃ s ∈ {s | s ∈ Crew.further (answer r)}, {q | Asked answer s q}).Finite :=
      (List.finite_toSet _).biUnion ih
    refine ((Set.finite_singleton r).union hbelow).subset fun s hs => ?_
    rcases asked_iff.1 hs with rfl | ⟨q, hq, hasked⟩
    · exact Or.inl rfl
    · exact Or.inr (Set.mem_biUnion hq hasked)

/-- The requests of a finite tree, in some order. -/
theorem exists_requests (h : FiniteBelow answer root) :
    ∃ all : List α, all.Nodup ∧ ∀ r, r ∈ all ↔ Asked answer root r :=
  ⟨(finite_asked h).toFinset.toList, Finset.nodup_toList _, fun r => by simp⟩

end Trees

namespace RequestTree

variable {answer : α → Option (Found α FolderLoad)} {path : α → String} {root r s : α}

/-- The path of every request is a row of names. -/
theorem path_eq_relOf (h : RequestTree answer path root) (hr : Asked answer root r) :
    ∃ names, (∀ n ∈ names, IsName n) ∧ path r = relOf names := by
  induction hr with
  | root => exact ⟨[], forall_isName_nil, h.path_root⟩
  | further around mem ih =>
    obtain ⟨names, hnames, hpath⟩ := ih
    obtain ⟨below, -, hbelow, hmap⟩ := h.paths_further _ around
    have hs := List.mem_map_of_mem (f := path) mem
    rw [hmap] at hs
    obtain ⟨n, hn, hjoin⟩ := List.mem_map.1 hs
    exact ⟨names ++ [n], forall_isName_concat hnames (hbelow n hn), by
      rw [relOf_concat, ← hpath, hjoin]⟩

/-- Below a folder there is a path of names more. -/
theorem path_further (h : RequestTree answer path root) (hr : Asked answer root r)
    (hs : s ∈ Crew.further (answer r)) : ∃ n, IsName n ∧ path s = joinRel (path r) n := by
  obtain ⟨below, -, hbelow, hmap⟩ := h.paths_further r hr
  have hmem := List.mem_map_of_mem (f := path) hs
  rw [hmap] at hmem
  obtain ⟨n, hn, hjoin⟩ := List.mem_map.1 hmem
  exact ⟨n, hbelow n hn, hjoin.symm⟩

/-- A path lies below one folder only. -/
theorem path_eq_of_further {r' s' : α} (h : RequestTree answer path root)
    (hr : Asked answer root r) (hr' : Asked answer root r') (hs : s ∈ Crew.further (answer r))
    (hs' : s' ∈ Crew.further (answer r')) (hpath : path s = path s') : path r = path r' := by
  obtain ⟨names, hnames, hrel⟩ := h.path_eq_relOf hr
  obtain ⟨names', hnames', hrel'⟩ := h.path_eq_relOf hr'
  obtain ⟨n, hn, hjoin⟩ := h.path_further hr hs
  obtain ⟨n', hn', hjoin'⟩ := h.path_further hr' hs'
  rw [hjoin, hjoin', hrel, hrel', ← relOf_concat, ← relOf_concat] at hpath
  have hsame := relOf_inj (forall_isName_concat hnames hn) (forall_isName_concat hnames' hn') hpath
  rw [hrel, hrel', (List.append_inj' hsame rfl).1]

theorem path_further_ne_root (h : RequestTree answer path root) (hr : Asked answer root r)
    (hs : s ∈ Crew.further (answer r)) : path s ≠ path root := by
  obtain ⟨n, hn, hjoin⟩ := h.path_further hr hs
  rw [hjoin, h.path_root]
  exact joinRel_ne_empty hn _

end RequestTree

/-! ### Where requests are -/

namespace Crew

/-- The requests that some workers see to. -/
def heldBy (workers : List (Worker α)) : List α :=
  workers.filterMap fun
    | .idle => none
    | .busy request => some request

theorem heldBy_set_busy {workers : List (Worker α)} {w : Nat} {r : α}
    (h : workers[w]? = some .idle) :
    (heldBy (workers.set w (.busy r))).Perm (r :: heldBy workers) := by
  induction workers generalizing w with
  | nil => cases h
  | cons first workers ih =>
    cases w with
    | zero =>
      obtain rfl : first = .idle := by simpa using h
      exact List.Perm.refl _
    | succ w =>
      have hrest := ih (w := w) (by simpa using h)
      cases first with
      | idle => exact hrest
      | busy q => exact (hrest.cons q).trans (.swap r q _)

theorem heldBy_set_idle {workers : List (Worker α)} {w : Nat} {r : α}
    (h : workers[w]? = some (.busy r)) :
    (heldBy workers).Perm (r :: heldBy (workers.set w .idle)) := by
  induction workers generalizing w with
  | nil => cases h
  | cons first workers ih =>
    cases w with
    | zero =>
      obtain rfl : first = .busy r := by simpa using h
      exact List.Perm.refl _
    | succ w =>
      have hrest := ih (w := w) (by simpa using h)
      cases first with
      | idle => exact hrest
      | busy q => exact (hrest.cons q).trans (.swap r q _)

variable {answer : α → Option (Found α β)} {c d : Crew α β}

theorem held_eq (c : Crew α β) : c.held = heldBy c.workers := rfl

/-- The requests that have been made and whose answers the coordinator has not taken. -/
def unanswered (c : Crew α β) : List α :=
  c.pending ++ c.outgoing ++ c.held ++ c.incoming.map Prod.fst

/-- The requests that have been made. -/
def requests (c : Crew α β) : List α := c.taken.map Prod.fst ++ c.unanswered

theorem length_unanswered (c : Crew α β) : c.unanswered.length =
    c.pending.length + c.outgoing.length + c.held.length + c.incoming.length := by
  simp [unanswered, Nat.add_assoc]

/-- What a step does to the requests: an answer is taken and the requests that follow from it come
up, or all stay unanswered. -/
inductive Moves (c d : Crew α β) : Prop where
  | handsOn (unanswered : d.unanswered.Perm c.unanswered) (taken : d.taken = c.taken)
      (outstanding : d.outstanding = c.outstanding)
  | takes (a : Answered α β) (others : List α) (mem : a ∈ c.incoming)
      (before : c.unanswered.Perm (a.1 :: others))
      (after : d.unanswered.Perm (others ++ further a.2)) (taken : d.taken = c.taken ++ [a])
      (outstanding : d.outstanding = c.outstanding - 1 + (further a.2).length)

theorem coe_unanswered (c : Crew α β) : (c.unanswered : Multiset α) =
    ↑c.pending + ↑c.outgoing + ↑c.held + ↑(c.incoming.map Prod.fst) := by
  simp only [unanswered, Multiset.coe_add]

/-- **What a step does to the requests.** -/
theorem Step.moves (s : Step answer c d) : Moves c d := by
  cases s with
  | handOut _ _ next _ =>
    refine .handsOn (Multiset.coe_eq_coe.1 ?_) rfl rfl
    simp only [coe_unanswered, next, held_eq, ← Multiset.coe_add, ← Multiset.cons_coe,
      ← Multiset.singleton_add, Multiset.coe_nil, add_zero]
    ac_rfl
  | wait => exact .handsOn (.refl _) rfl rfl
  | @takeAnswer a rest _ next =>
    refine .takes a (c.pending ++ c.outgoing ++ c.held ++ rest.map Prod.fst) (by simp [next])
      (Multiset.coe_eq_coe.1 ?_) (Multiset.coe_eq_coe.1 ?_) rfl rfl
    · simp only [coe_unanswered, next, List.map_cons, ← Multiset.coe_add, ← Multiset.cons_coe,
        ← Multiset.singleton_add]
      ac_rfl
    · simp only [coe_unanswered, held_eq, ← Multiset.coe_add]
      ac_rfl
  | @takeRequest request rest worker idle next =>
    have hheld := Multiset.coe_eq_coe.2 (heldBy_set_busy (r := request) idle)
    refine .handsOn (Multiset.coe_eq_coe.1 ?_) rfl rfl
    simp only [coe_unanswered, next, held_eq, hheld, ← Multiset.cons_coe,
      ← Multiset.singleton_add]
    ac_rfl
  | @giveBack request worker busy _ =>
    have hheld := Multiset.coe_eq_coe.2 (heldBy_set_idle busy)
    refine .handsOn (Multiset.coe_eq_coe.1 ?_) rfl rfl
    simp only [coe_unanswered, held_eq, hheld, List.map_append, List.map_cons, List.map_nil,
      ← Multiset.coe_add, ← Multiset.cons_coe, ← Multiset.singleton_add, Multiset.coe_nil, add_zero]
    ac_rfl

/-! ### Steps one after the other -/

/-- So many steps of a crew. -/
inductive Run (answer : α → Option (Found α β)) (begin : Crew α β) : Nat → Crew α β → Prop where
  | refl : Run answer begin 0 begin
  /-- One step more. -/
  | step {n : Nat} {c d : Crew α β} (before : Run answer begin n c) (s : Step answer c d) :
      Run answer begin (n + 1) d

/-! ### Nobody is left waiting -/

/-- The coordinator's number is right, and a coordinator who waits does so for an answer. -/
structure Sound (answer : α → Option (Found α β)) (c : Crew α β) : Prop where
  hired : 0 < c.workers.length
  outstanding_eq : c.outstanding = c.unanswered.length
  answered : ∀ a ∈ c.incoming ++ c.taken, a.2 = answer a.1
  awaits : c.waiting = true → 0 < c.outgoing.length + c.held.length + c.incoming.length

theorem held_start (workers : Nat) (root : α) : (start workers root : Crew α β).held = [] := by
  rw [held_eq, start, heldBy, List.filterMap_replicate_of_none rfl]

theorem sound_start {workers : Nat} (hw : 0 < workers) (root : α) :
    Sound answer (start workers root) where
  hired := by rw [start, List.length_replicate]; exact hw
  outstanding_eq := by rw [length_unanswered, held_start]; rfl
  answered := by simp [start]
  awaits := nofun

theorem length_held_of_busy {workers : List (Worker α)} {w : Nat} {r : α}
    (h : workers[w]? = some .idle) :
    (heldBy (workers.set w (.busy r))).length = (heldBy workers).length + 1 :=
  (heldBy_set_busy h).length_eq

theorem length_held_of_idle {workers : List (Worker α)} {w : Nat} {r : α}
    (h : workers[w]? = some (.busy r)) :
    (heldBy workers).length = (heldBy (workers.set w .idle)).length + 1 :=
  (heldBy_set_idle h).length_eq

namespace Sound

theorem hired_step (h : Sound answer c) (s : Step answer c d) : 0 < d.workers.length := by
  have hhired := h.hired
  cases s <;> simpa using hhired

theorem outstanding_step (h : Sound answer c) (s : Step answer c d) :
    d.outstanding = d.unanswered.length := by
  have hc := h.outstanding_eq
  cases s.moves with
  | handsOn unanswered _ outstanding => rw [outstanding, hc, unanswered.length_eq]
  | takes a others _ before after _ outstanding =>
    rw [outstanding, hc, before.length_eq, after.length_eq, List.length_cons, List.length_append,
      Nat.add_sub_cancel]

/-- Answers are not changed on their way. -/
theorem answered_step (h : Sound answer c) (s : Step answer c d) :
    ∀ a ∈ d.incoming ++ d.taken, a.2 = answer a.1 := by
  have hc := h.answered
  cases s with
  | handOut | wait | takeRequest => exact hc
  | takeAnswer _ next =>
    rw [next] at hc
    intro a ha
    exact hc a (by simp only [List.mem_append, List.mem_cons, List.not_mem_nil, or_false] at ha ⊢; tauto)
  | @giveBack request _ _ _ =>
    intro a ha
    simp only [List.mem_append, List.mem_cons, List.not_mem_nil, or_false] at ha
    rcases ha with (ha | rfl) | ha
    · exact hc a (List.mem_append_left _ ha)
    · rfl
    · exact hc a (List.mem_append_right _ ha)

theorem awaits_step (h : Sound answer c) (s : Step answer c d) :
    d.waiting = true → 0 < d.outgoing.length + d.held.length + d.incoming.length := by
  cases s with
  | handOut _ ready =>
    intro hwaits
    exact absurd (ready.symm.trans hwaits) Bool.false_ne_true
  | wait work _ blocked =>
    intro _
    have hcount := h.outstanding_eq
    have hhired := h.hired
    rw [length_unanswered] at hcount
    dsimp only [held_eq, capacity] at *
    rcases blocked with hnone | hfull
    · rw [hnone, List.length_nil] at hcount
      omega
    · omega
  | takeAnswer => nofun
  | @takeRequest request _ _ idle next =>
    intro hwaits
    have hheld := length_held_of_busy (r := request) idle
    have := h.awaits hwaits
    rw [next] at this
    simp only [held_eq, List.length_cons] at *
    omega
  | giveBack busy =>
    intro hwaits
    simp only [held_eq, List.length_append, List.length_singleton]
    omega

theorem step (h : Sound answer c) (s : Step answer c d) : Sound answer d where
  hired := h.hired_step s
  outstanding_eq := h.outstanding_step s
  answered := h.answered_step s
  awaits := h.awaits_step s

theorem run {begin : Crew α β} (h : Sound answer begin) {n : Nat} (hrun : Run answer begin n c) :
    Sound answer c := by
  induction hrun with
  | refl => exact h
  | step _ s ih => exact ih.step s

end Sound

theorem exists_busy {workers : List (Worker α)} (h : heldBy workers ≠ []) :
    ∃ (w : Nat) (r : α), workers[w]? = some (.busy r) := by
  obtain ⟨r, hr⟩ := List.exists_mem_of_ne_nil _ h
  obtain ⟨worker, hworker, hbusy⟩ := List.mem_filterMap.1 hr
  obtain ⟨w, hw⟩ := List.mem_iff_getElem?.1 hworker
  cases worker with
  | idle => cases hbusy
  | busy q => exact ⟨w, q, hw⟩

theorem exists_idle {workers : List (Worker α)} (hhired : 0 < workers.length)
    (h : heldBy workers = []) : workers[0]? = some .idle := by
  cases workers with
  | nil => cases hhired
  | cons first workers =>
    cases first with
    | idle => rfl
    | busy r => cases h

/-- **A crew with outstanding requests is never stuck.** -/
theorem exists_step (h : Sound answer c) (hwork : 0 < c.outstanding) : ∃ d, Step answer c d := by
  by_cases hwaits : c.waiting = true
  · cases hincoming : c.incoming with
    | cons a rest => exact ⟨_, .takeAnswer hwaits hincoming⟩
    | nil =>
      by_cases hheld : heldBy c.workers = []
      · cases houtgoing : c.outgoing with
        | cons request rest => exact ⟨_, .takeRequest (exists_idle h.hired hheld) houtgoing⟩
        | nil =>
          -- the coordinator would wait for an answer that nobody is to give
          have hawaits := h.awaits hwaits
          rw [hincoming, houtgoing, held_eq, hheld] at hawaits
          exact absurd hawaits (Nat.lt_irrefl 0)
      · obtain ⟨w, r, hbusy⟩ := exists_busy hheld
        exact ⟨_, .giveBack hbusy (by rw [hincoming]; exact h.hired)⟩
  · rw [Bool.not_eq_true] at hwaits
    cases hpending : c.pending with
    | nil => exact ⟨_, .wait hwork hwaits (Or.inl hpending)⟩
    | cons request rest =>
      by_cases hroom : c.outgoing.length < c.capacity
      · exact ⟨_, .handOut hwork hwaits hpending hroom⟩
      · exact ⟨_, .wait hwork hwaits (Or.inr (Nat.le_of_not_lt hroom))⟩

/-- When nothing is outstanding, nobody can do anything. -/
theorem not_step_of_isDone (h : Sound answer c) (hdone : c.IsDone) : ¬ Step answer c d := by
  have hcount := h.outstanding_eq
  rw [show c.outstanding = 0 from hdone, length_unanswered] at hcount
  intro s
  cases s with
  | handOut work | wait work => exact Nat.ne_of_gt work hdone
  | takeAnswer _ next =>
    rw [next, List.length_cons] at hcount
    omega
  | takeRequest _ next =>
    rw [next, List.length_cons] at hcount
    omega
  | giveBack busy =>
    have := length_held_of_idle busy
    rw [held_eq] at hcount
    omega

/-! ### Five steps for each request -/

/-- The number of steps that a crew has taken, told from where the requests are. -/
def strides (c : Crew α β) : Nat :=
  c.outgoing.length + 2 * c.held.length + 3 * c.incoming.length + 5 * c.taken.length +
    if c.waiting then 1 else 0

theorem strides_step (s : Step answer c d) : d.strides = c.strides + 1 := by
  cases s with
  | handOut =>
    simp only [strides, held_eq, List.length_append, List.length_singleton]
    omega
  | wait _ ready => simp [strides, held_eq, ready]
  | takeAnswer waits next =>
    simp only [strides, held_eq, waits, next, List.length_append, List.length_cons, List.length_nil,
      ↓reduceIte, Bool.false_eq_true]
    omega
  | @takeRequest request _ _ idle next =>
    have hheld := length_held_of_busy (r := request) idle
    simp only [strides, held_eq, next, hheld, List.length_cons]
    omega
  | giveBack busy =>
    have hheld := length_held_of_idle busy
    simp only [strides, held_eq, hheld, List.length_append, List.length_singleton]
    omega

theorem strides_run {workers n : Nat} {root : α} (h : Run answer (start workers root) n c) :
    c.strides = n := by
  induction h with
  | refl =>
    simp only [strides, held_start]
    rfl
  | step _ s ih => rw [strides_step s, ih]

theorem length_requests (c : Crew α β) : c.requests.length = c.taken.length +
    (c.pending.length + c.outgoing.length + c.held.length + c.incoming.length) := by
  rw [requests, List.length_append, List.length_map, length_unanswered]

/-- No request goes through more than five steps. -/
theorem strides_le (h : Sound answer c) : c.strides ≤ 5 * c.requests.length := by
  have hawaits := h.awaits
  rw [strides, length_requests]
  split
  · next hwaits =>
    have := hawaits hwaits
    omega
  · omega

theorem unanswered_of_isDone (h : Sound answer c) (hdone : c.IsDone) : c.unanswered = [] :=
  List.length_eq_zero_iff.1 (h.outstanding_eq.symm.trans hdone)

theorem requests_of_isDone (h : Sound answer c) (hdone : c.IsDone) :
    c.requests = c.taken.map Prod.fst := by
  rw [requests, unanswered_of_isDone h hdone, List.append_nil]

/-- When nothing is outstanding, every request has gone through five steps. -/
theorem strides_of_isDone (h : Sound answer c) (hdone : c.IsDone) :
    c.strides = 5 * c.requests.length := by
  have hcount := h.outstanding_eq
  have hawaits := h.awaits
  rw [show c.outstanding = 0 from hdone, length_unanswered] at hcount
  rw [strides, length_requests]
  split
  · next hwaits =>
    have := hawaits hwaits
    omega
  · omega

/-! ### No path twice -/

section Requests

variable {answer : α → Option (Found α FolderLoad)} {path : α → String} {root : α}
  {c d : Crew α FolderLoad}

/-- The requests of a crew are those that follow from the answers it has taken, and their paths are
different. -/
structure Tidy (answer : α → Option (Found α FolderLoad)) (path : α → String) (root : α)
    (c : Crew α FolderLoad) : Prop where
  asked : ∀ r ∈ c.requests, Asked answer root r
  nodup : (c.requests.map path).Nodup
  root_mem : root ∈ c.requests
  further_mem : ∀ a ∈ c.taken, ∀ s ∈ further a.2, s ∈ c.requests
  parent : ∀ s ∈ c.requests, s = root ∨ ∃ a ∈ c.taken, s ∈ further a.2

theorem requests_start (workers : Nat) (root : α) :
    (start workers root : Crew α FolderLoad).requests = [root] := by
  rw [requests, unanswered, held_start]
  rfl

theorem tidy_start (workers : Nat) : Tidy answer path root (start workers root) := by
  have hrequests : (start workers root : Crew α FolderLoad).requests = [root] :=
    requests_start workers root
  exact
    { asked := fun r hr => by
        rw [hrequests, List.mem_singleton] at hr
        exact hr ▸ .root
      nodup := by rw [hrequests]; exact List.nodup_singleton _
      root_mem := by rw [hrequests]; exact List.mem_singleton_self _
      further_mem := nofun
      parent := fun s hs => by
        rw [hrequests, List.mem_singleton] at hs
        exact Or.inl hs }

/-- The requests after an answer was taken: those before it and those that follow from it. -/
theorem requests_of_takes {a : Answered α FolderLoad} {others : List α}
    (before : c.unanswered.Perm (a.1 :: others)) (after : d.unanswered.Perm (others ++ further a.2))
    (taken : d.taken = c.taken ++ [a]) : d.requests.Perm (c.requests ++ further a.2) := by
  have hc := Multiset.coe_eq_coe.2 before
  have hd := Multiset.coe_eq_coe.2 after
  refine Multiset.coe_eq_coe.1 ?_
  simp only [requests, taken, List.map_append, List.map_cons, List.map_nil, ← Multiset.coe_add, hc,
    hd, ← Multiset.cons_coe, ← Multiset.singleton_add, Multiset.coe_nil, add_zero]
  ac_rfl

namespace Tidy

/-- The requests that follow from an answer are new, since no other folder has their paths below
it. -/
theorem nodup_further (tree : RequestTree answer path root) (h : Tidy answer path root c)
    (hs : Sound answer c) {a : Answered α FolderLoad} (ha : a ∈ c.incoming) {others : List α}
    (before : c.unanswered.Perm (a.1 :: others)) :
    ((c.requests ++ further a.2).map path).Nodup := by
  have hopen : a.1 ∈ c.unanswered := before.mem_iff.2 List.mem_cons_self
  have hasked : Asked answer root a.1 := h.asked _ (List.mem_append_right _ hopen)
  have hanswer : a.2 = answer a.1 := hs.answered a (List.mem_append_left _ ha)
  rw [List.map_append, List.nodup_append]
  refine ⟨h.nodup, ?_, ?_⟩
  · obtain ⟨names, hnodup, -, hmap⟩ := tree.paths_further a.1 hasked
    rw [hanswer, hmap]
    exact hnodup.map fun _ _ => joinRel_inj
  · intro p hp p' hp' hsame
    obtain ⟨s, hmem, rfl⟩ := List.mem_map.1 hp
    obtain ⟨s', hmem', rfl⟩ := List.mem_map.1 hp'
    rw [hanswer] at hmem'
    rcases h.parent s hmem with rfl | ⟨b, hb, hfurther⟩
    · exact tree.path_further_ne_root hasked hmem' hsame.symm
    · have hanswer' : b.2 = answer b.1 := hs.answered b (List.mem_append_right _ hb)
      have hb' : b.1 ∈ c.taken.map Prod.fst := List.mem_map_of_mem hb
      rw [hanswer'] at hfurther
      -- both lie below one folder, whose answer has been taken and is still to be taken
      have hpath := tree.path_eq_of_further (h.asked _ (List.mem_append_left _ hb')) hasked hfurther
        hmem' hsame
      have hdistinct := h.nodup
      rw [requests, List.map_append, List.nodup_append] at hdistinct
      exact hdistinct.2.2 _ (List.mem_map_of_mem hb') _ (List.mem_map_of_mem hopen) hpath

theorem of_perm (h : Tidy answer path root c) (hrequests : d.requests.Perm c.requests)
    (htaken : d.taken = c.taken) : Tidy answer path root d where
  asked := fun r hr => h.asked r (hrequests.mem_iff.1 hr)
  nodup := (hrequests.map path).nodup_iff.2 h.nodup
  root_mem := hrequests.mem_iff.2 h.root_mem
  further_mem := fun a ha s hs => hrequests.mem_iff.2 (h.further_mem a (htaken ▸ ha) s hs)
  parent := fun s hs => by
    rw [htaken]
    exact h.parent s (hrequests.mem_iff.1 hs)

theorem step (tree : RequestTree answer path root) (h : Tidy answer path root c)
    (hs : Sound answer c) (s : Step answer c d) : Tidy answer path root d := by
  cases s.moves with
  | handsOn unanswered taken _ =>
    refine h.of_perm ?_ taken
    rw [requests, requests, taken]
    exact unanswered.append_left _
  | takes a others mem before after taken _ =>
    have hrequests := requests_of_takes before after taken
    have hasked : Asked answer root a.1 :=
      h.asked _ (List.mem_append_right _ (before.mem_iff.2 List.mem_cons_self))
    have hanswer : a.2 = answer a.1 := hs.answered a (List.mem_append_left _ mem)
    exact
      { asked := fun r hr => by
          rcases List.mem_append.1 (hrequests.mem_iff.1 hr) with hr | hr
          · exact h.asked r hr
          · exact hasked.further (hanswer ▸ hr)
        nodup := (hrequests.map path).nodup_iff.2 (h.nodup_further tree hs mem before)
        root_mem := hrequests.mem_iff.2 (List.mem_append_left _ h.root_mem)
        further_mem := fun b hb q hq => by
          rw [taken, List.mem_append, List.mem_singleton] at hb
          refine hrequests.mem_iff.2 (List.mem_append.2 ?_)
          rcases hb with hb | rfl
          · exact Or.inl (h.further_mem b hb q hq)
          · exact Or.inr hq
        parent := fun q hq => by
          rw [taken]
          rcases List.mem_append.1 (hrequests.mem_iff.1 hq) with hq | hq
          · refine (h.parent q hq).imp_right fun ⟨b, hb, hfurther⟩ => ?_
            exact ⟨b, List.mem_append_left _ hb, hfurther⟩
          · exact Or.inr ⟨a, List.mem_append_right _ (List.mem_singleton_self _), hq⟩ }

theorem run (tree : RequestTree answer path root) {workers n : Nat} (hw : 0 < workers)
    (h : Run answer (start workers root) n c) : Tidy answer path root c := by
  induction h with
  | refl => exact tidy_start workers
  | step before s ih => exact ih.step tree ((sound_start hw root).run before) s

/-- When all requests are answered, those are all that follow from the first one. -/
theorem mem_requests_iff (h : Tidy answer path root c) (hs : Sound answer c) (hdone : c.IsDone)
    {r : α} : r ∈ c.requests ↔ Asked answer root r := by
  refine ⟨h.asked r, fun hasked => ?_⟩
  induction hasked with
  | root => exact h.root_mem
  | further _ mem ih =>
    rw [requests_of_isDone hs hdone] at ih
    obtain ⟨a, ha, rfl⟩ := List.mem_map.1 ih
    have hanswer : a.2 = answer a.1 := hs.answered a (List.mem_append_right _ ha)
    exact h.further_mem a ha _ (hanswer ▸ mem)

end Tidy

/-- **No path is requested twice**, whatever the crew does first. -/
theorem requests_nodup (tree : RequestTree answer path root) {workers n : Nat} (hw : 0 < workers)
    (h : Run answer (start workers root) n c) : (c.requests.map path).Nodup :=
  (Tidy.run tree hw h).nodup

/-! ### One outcome -/

theorem taken_eq_map (hs : Sound answer c) :
    c.taken = (c.taken.map Prod.fst).map fun r => (r, answer r) := by
  rw [List.map_map]
  refine (List.map_id _).symm.trans (List.map_congr_left fun a ha => ?_)
  exact Prod.ext rfl (hs.answered a (List.mem_append_right _ ha))

/-- No two albums that a crew has brought home have the same path. -/
theorem rels_nodup (tree : RequestTree answer path root) (h : Tidy answer path root c)
    (hs : Sound answer c) :
    ((c.taken.filterMap fun a => a.2.map Found.result).map fun f => f.album.rel).Nodup := by
  have hpaths : (c.taken.map fun a => path a.1).Nodup := by
    have hdistinct := h.nodup
    rw [requests, List.map_append, List.map_map] at hdistinct
    exact (List.nodup_append.1 hdistinct).1
  have hrel : ∀ a ∈ c.taken, ∀ f, a.2.map Found.result = some f → f.album.rel = path a.1 := by
    intro a ha f hf
    obtain ⟨found, hfound, rfl⟩ := Option.map_eq_some_iff.1 hf
    have hasked : Asked answer root a.1 :=
      h.asked _ (List.mem_append_left _ (List.mem_map_of_mem ha))
    exact tree.path_album a.1 found hasked ((hs.answered a (List.mem_append_right _ ha)) ▸ hfound)
  refine List.pairwise_map.2 (List.pairwise_filterMap.2 ?_)
  refine (List.pairwise_map.1 hpaths).imp_of_mem fun {a b} ha hb hne f hf g hg hsame => hne ?_
  rw [← hrel a ha f hf, ← hrel b hb g hg, hsame]

end Requests

end Crew

theorem Album.Before.asymm {a b : Album} (hab : a.Before b) (hba : b.Before a) : a = b := by
  unfold Album.Before at hab hba
  rcases hab with hab | ⟨htime, hab⟩ <;> rcases hba with hba | ⟨htime', hba⟩
  · exact absurd (Calendar.Instant.lt_trans hab hba) (Calendar.Instant.lt_irrefl _)
  · exact absurd (htime' ▸ hab) (Calendar.Instant.lt_irrefl _)
  · exact absurd (htime ▸ hba) (Calendar.Instant.lt_irrefl _)
  · exact absurd (String.lt_trans hab hba) (String.lt_irrefl _)

/-- **The order of answers cannot be told from their outcome**, if their albums have different
paths. -/
theorem outcomeOf_perm {answers answers' : List (Answered α FolderLoad)}
    (hperm : answers.Perm answers')
    (hrels : ((answers.filterMap fun a => a.2.map Found.result).map
      fun f => f.album.rel).Nodup) : outcomeOf answers = outcomeOf answers' := by
  have hloads := hperm.filterMap fun a => a.2.map Found.result
  have halbums := hloads.map FolderLoad.album
  have hnodup : (((answers.filterMap fun a => a.2.map Found.result).map
      FolderLoad.album).map Album.rel).Nodup := by rw [List.map_map]; exact hrels
  have hnodup' := (halbums.map Album.rel).nodup_iff.1 hnodup
  have hsorted := ((List.mergeSort_perm _ Album.le).trans halbums).trans
    (List.mergeSort_perm _ Album.le).symm
  have hsame := hsorted.eq_of_pairwise (fun _ _ _ _ => Album.Before.asymm)
    (Album.pairwise_mergeSort hnodup) (Album.pairwise_mergeSort hnodup')
  simp only [outcomeOf, Loader.foldr_images_eq]
  rw [hsame, halbums.length_eq, (halbums.flatMap_right Album.images).length_eq,
    hloads.countP_eq, hperm.countP_eq]

namespace Crew

variable {answer : α → Option (Found α FolderLoad)} {path : α → String} {root : α}

/-- When the work is done, every request has its answer, once. -/
theorem taken_perm (tree : RequestTree answer path root) {workers n : Nat} (hw : 0 < workers)
    {c : Crew α FolderLoad} (hrun : Run answer (start workers root) n c) (hdone : c.IsDone)
    {all : List α} (hnodup : all.Nodup) (hall : ∀ r, r ∈ all ↔ Asked answer root r) :
    c.requests.Perm all ∧ c.taken.Perm (all.map fun r => (r, answer r)) := by
  have hs : Sound answer c := (sound_start hw root).run hrun
  have htidy : Tidy answer path root c := Tidy.run tree hw hrun
  have hrequests : c.requests.Perm all :=
    (List.perm_ext_iff_of_nodup (htidy.nodup.of_map path) hnodup).2 fun r =>
      (htidy.mem_requests_iff hs hdone).trans (hall r).symm
  refine ⟨hrequests, ?_⟩
  rw [taken_eq_map hs, ← requests_of_isDone hs hdone]
  exact hrequests.map _

/-- What holds of a crew after so many steps, if it has to see to these requests and bring home this
outcome. -/
structure OnCourse (answer : α → Option (Found α FolderLoad)) (path : α → String) (all : List α)
    (outcome : List Album × LoadStats) (n : Nat) (c : Crew α FolderLoad) : Prop where
  /-- The number of outstanding requests is that of the requests in all places. -/
  outstanding_eq : c.outstanding =
    c.pending.length + c.outgoing.length + c.held.length + c.incoming.length
  /-- As long as requests are outstanding, someone can go on. -/
  not_stuck : 0 < c.outstanding → ∃ d, Step answer c d
  /-- No path has been requested twice. -/
  once : (c.requests.map path).Nodup
  /-- No more steps have been taken than five for each request. -/
  steps_le : n ≤ 5 * all.length
  /-- The work is done when nobody can go on, and only then. -/
  isDone_iff : c.IsDone ↔ ∀ d, ¬ Step answer c d
  /-- Then every request has its answer, once; -/
  resolved : c.IsDone → c.taken.Perm (all.map fun r => (r, answer r))
  /-- five steps have been taken for each; -/
  steps_eq : c.IsDone → n = 5 * all.length
  /-- and the outcome is this one. -/
  outcome_eq : c.IsDone → c.outcome = outcome

/-- **A crew stays on course**, whatever its schedule. -/
theorem onCourse (tree : RequestTree answer path root) {workers n : Nat} (hw : 0 < workers)
    {c : Crew α FolderLoad} (hrun : Run answer (start workers root) n c) {all : List α}
    (hnodup : all.Nodup) (hall : ∀ r, r ∈ all ↔ Asked answer root r) :
    OnCourse answer path all (outcomeOf (all.map fun r => (r, answer r))) n c := by
  have hs : Sound answer c := (sound_start hw root).run hrun
  have htidy : Tidy answer path root c := Tidy.run tree hw hrun
  have hsub : c.requests ⊆ all := fun r hr => (hall r).2 (htidy.asked r hr)
  have hlen : c.requests.length ≤ all.length :=
    ((htidy.nodup.of_map path).subperm hsub).length_le
  have hresolved := fun hdone => taken_perm tree hw hrun hdone hnodup hall
  exact
    { outstanding_eq := hs.outstanding_eq.trans c.length_unanswered
      not_stuck := exists_step hs
      once := htidy.nodup
      steps_le := by
        rw [← strides_run hrun]
        exact (strides_le hs).trans (Nat.mul_le_mul_left 5 hlen)
      isDone_iff := by
        refine ⟨fun h d => not_step_of_isDone hs h, fun hstuck => ?_⟩
        by_contra hwork
        obtain ⟨d, hstep⟩ := exists_step hs (Nat.pos_of_ne_zero hwork)
        exact hstuck d hstep
      resolved := fun hdone => (hresolved hdone).2
      steps_eq := fun hdone => by
        rw [← strides_run hrun, strides_of_isDone hs hdone,
          (hresolved hdone).1.length_eq]
      outcome_eq := fun hdone =>
        outcomeOf_perm (hresolved hdone).2 (rels_nodup tree htidy hs) }

/-- **All schedules come to an end, and to the same one.**  If the requests that follow from a first
one make a finite tree, a crew of any size that starts with it stays on course, whoever is faster
than whom: nobody waits in vain, no path is requested twice, and after five steps for each request
all of them are answered and the outcome is what comes of all the answers. -/
theorem schedules (tree : RequestTree answer path root) :
    ∃ all : List α, all.Nodup ∧ (∀ r, r ∈ all ↔ Asked answer root r) ∧
      ∀ workers, 0 < workers → ∀ n c, Run answer (start workers root) n c →
        OnCourse answer path all (outcomeOf (all.map fun r => (r, answer r))) n c := by
  obtain ⟨all, hnodup, hall⟩ := exists_requests tree.finite
  exact ⟨all, hnodup, hall, fun workers hw n c hrun => onCourse tree hw hrun hnodup hall⟩

/-- The answers for a folder whose one subfolder cannot be listed. -/
def brokenSubfolder (rel : String) : Option (Found String FolderLoad) :=
  if rel = "" then some ⟨⟨⟨"", .epoch, .epoch, []⟩, .empty, true, []⟩, ["a"]⟩ else none

/-- A crew of any size comes to the folder and to the subfolder that cannot be listed. -/
theorem schedules_of_broken_subfolder :
    RequestTree brokenSubfolder id "" ∧
      ∃ all : List String, all.Nodup ∧ (∀ r, r ∈ all ↔ r = "" ∨ r = "a") ∧
        ∀ workers, 0 < workers → ∀ n c, Run brokenSubfolder (start workers "") n c →
          OnCourse brokenSubfolder id all
            (outcomeOf (all.map fun r => (r, brokenSubfolder r))) n c := by
  have hroot : further (brokenSubfolder "") = ["a"] := rfl
  have hsub : further (brokenSubfolder "a") = [] := by decide
  have hlast : ∀ r, Asked brokenSubfolder "a" r ↔ r = "a" := fun r => by
    rw [asked_iff, hsub]
    simp
  have hasked : ∀ r, Asked brokenSubfolder "" r ↔ r = "" ∨ r = "a" := fun r => by
    rw [asked_iff, hroot]
    simp [hlast]
  have tree : RequestTree brokenSubfolder id "" :=
    { finite := .intro fun s hs => by
        rw [hroot, List.mem_singleton] at hs
        exact hs ▸ .intro fun q hq => by rw [hsub] at hq; cases hq
      path_root := rfl
      paths_further := fun r hr => by
        rcases (hasked r).1 hr with rfl | rfl
        · exact ⟨["a"], by decide, by decide, rfl⟩
        · exact ⟨[], by decide, by decide, by decide⟩
      path_album := fun r f hr hf => by
        rcases (hasked r).1 hr with rfl | rfl
        · cases hf; rfl
        · cases hf }
  obtain ⟨all, hnodup, hall, hcourse⟩ := schedules tree
  exact ⟨tree, all, hnodup, fun r => (hall r).trans (hasked r), hcourse⟩

end Crew
end AlbumIndex
