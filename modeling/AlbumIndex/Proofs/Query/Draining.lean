import AlbumIndex.Proofs.Query.Nodes

/-!
# Draining a search

A search hands out the ranks of its cursor one by one, or else the images of these ranks.  As long
as the cursor ascends and gives only ranks that the catalog knows, both ways agree pull by pull: no
rank is passed over in search of an image, and a search without a cursor gives nothing at all.

## Main definitions

* `Search.after`, `Search.answer` — a search after so many steps, and the answer of the next one.
* `Search.Fit` — what a search needs to keep going.
* `Search.HandsOut` — the images that a search hands out, and in which order.

## Main results

* `Search.ranks_spec` — the ranks of a search, pull by pull.
* `Search.answer_next` — **the images of a search are those of its ranks.**
* `Search.begin_handsOut` — a search hands out the images that fulfil its node.
-/

namespace AlbumIndex
namespace Query
namespace Search

/-! ### Steps -/

section Steps

variable {α : Type}

/-- The search after so many steps of one kind. -/
def after (step : Search → α × Search) : Nat → Search → Search
  | 0, s => s
  | n + 1, s => after step n (step s).2

/-- The answer of the step that comes after so many others. -/
def answer (step : Search → α × Search) (s : Search) (n : Nat) : α := (step (after step n s)).1

@[simp] theorem answer_zero (step : Search → α × Search) (s : Search) :
    answer step s 0 = (step s).1 := rfl

@[simp] theorem answer_succ (step : Search → α × Search) (s : Search) (n : Nat) :
    answer step s (n + 1) = answer step (step s).2 n := rfl

end Steps

/-! ### Searches that keep going -/

/-- The search is not stopped, and its cursor ascends and gives ranks of the catalog only. -/
structure Fit (s : Search) : Prop where
  running : s.cancelled = false
  ascending : ∀ c, s.root = some c → c.Ascending
  known : ∀ c, s.root = some c → ∀ r, c.Gives r → ∃ ref, s.catalog.ref? r = some ref

variable {s : Search}

theorem nextRank_of_root_eq_none (h : s.root = none) : s.nextRank = (none, s) := by
  rw [nextRank, h]

theorem nextRank_of_root_eq_some {c : Cursor} (hs : s.cancelled = false) (h : s.root = some c) :
    s.nextRank = ((c.pull false).1, { s with root := some (c.pull false).2 }) := by
  rw [nextRank, h, hs]

@[simp] theorem catalog_nextRank (s : Search) : s.nextRank.2.catalog = s.catalog := by
  unfold nextRank
  split <;> rfl

/-- A pull leaves a search that keeps going. -/
theorem Fit.nextRank (hf : s.Fit) : s.nextRank.2.Fit := by
  cases hroot : s.root with
  | none => rwa [nextRank_of_root_eq_none hroot]
  | some c =>
    have hstep := Cursor.pull_stepOf (hf.ascending c hroot)
    rw [nextRank_of_root_eq_some hf.running hroot]
    -- what the cursor has to give afterwards, it had to give before
    refine ⟨hf.running, ?_, ?_⟩
    · intro c' hc'
      rw [← Option.some.inj hc']
      exact hstep.ascending
    · intro c' hc' r hr
      rw [← Option.some.inj hc'] at hr
      exact hf.known c hroot r ((hstep.gives_iff r).2 (Or.inr hr))

/-- The rank of a pull is one of the catalog. -/
theorem Fit.exists_ref (hf : s.Fit) {r : Rank} (h : s.nextRank.1 = some r) :
    ∃ ref, s.catalog.ref? r = some ref := by
  cases hroot : s.root with
  | none =>
    rw [nextRank_of_root_eq_none hroot] at h
    cases h
  | some c =>
    have hstep := Cursor.pull_stepOf (hf.ascending c hroot)
    rw [nextRank_of_root_eq_some hf.running hroot] at h
    exact hf.known c hroot r ((hstep.gives_iff r).2 (Or.inl h))

/-! ### Ranks -/

theorem takeRanks_of_root_eq_some {c : Cursor} (hs : s.cancelled = false) (h : s.root = some c)
    (n : Nat) : takeRanks n s = c.take n := by
  induction n generalizing s c with
  | zero => rfl
  | succ n ih =>
    rw [takeRanks, Cursor.take, nextRank_of_root_eq_some hs h]
    cases hp : c.pull false with
    | mk answer c' =>
      cases answer with
      | none => rfl
      | some r => exact congrArg (r :: ·) (ih hs rfl)

theorem answer_nextRank_of_root_eq_some {c : Cursor} (hs : s.cancelled = false)
    (h : s.root = some c) (k : Nat) : answer nextRank s k = c.answer k := by
  induction k generalizing s c with
  | zero => rw [answer_zero, Cursor.answer_zero, nextRank_of_root_eq_some hs h]
  | succ k ih =>
    rw [answer_succ, Cursor.answer_succ, nextRank_of_root_eq_some hs h]
    exact ih hs rfl

/-- A search that is not stopped drains its cursor, in whatever order that gives its ranks. -/
theorem ranks_of_root_eq_some {c : Cursor} (hs : s.cancelled = false) (h : s.root = some c) :
    s.ranks = c.drain := by
  rw [ranks, takeRanks_of_root_eq_some hs h, weight, h]
  rfl

theorem answer_nextRank_of_root_eq_none (h : s.root = none) (k : Nat) :
    answer nextRank s k = none := by
  induction k with
  | zero => rw [answer_zero, nextRank_of_root_eq_none h]
  | succ k ih => rwa [answer_succ, nextRank_of_root_eq_none h]

/-- **The ranks of a search** are those that its cursor has to give, in strictly ascending order, one
with every pull. -/
theorem ranks_spec (hf : s.Fit) :
    s.ranks.Pairwise (· < ·) ∧ (∀ r, r ∈ s.ranks ↔ ∃ c, s.root = some c ∧ c.Gives r) ∧
      ∀ k, answer nextRank s k = s.ranks[k]? := by
  cases hroot : s.root with
  | none =>
    have hranks : s.ranks = [] := by
      rw [ranks, weight, hroot]
      rfl
    rw [hranks]
    refine ⟨List.Pairwise.nil, fun r => by simp, fun k => ?_⟩
    rw [answer_nextRank_of_root_eq_none hroot, List.getElem?_nil]
  | some c =>
    have hranks : s.ranks = c.drain := ranks_of_root_eq_some hf.running hroot
    obtain ⟨hasc, hmem, hans⟩ := Cursor.drain_spec (hf.ascending c hroot)
    rw [hranks]
    refine ⟨hasc, fun r => ?_, fun k => ?_⟩
    · rw [hmem r]
      simp
    · rw [answer_nextRank_of_root_eq_some hf.running hroot, hans k]

/-! ### Images -/

/-- The first rank of a search has an image at once. -/
theorem next_eq (hf : s.Fit) :
    s.next = (s.nextRank.1.bind s.catalog.ref?, s.nextRank.2) := by
  rw [next, nextKnown]
  cases hp : s.nextRank with
  | mk found s' =>
    cases found with
    | none => rfl
    | some r =>
      obtain ⟨ref, href⟩ := hf.exists_ref (congrArg Prod.fst hp)
      simp [href]

/-- **The images of a search are those of its ranks**, pull by pull. -/
theorem answer_next (hf : s.Fit) (k : Nat) :
    answer next s k = (answer nextRank s k).bind s.catalog.ref? := by
  induction k generalizing s with
  | zero => rw [answer_zero, answer_zero, next_eq hf]
  | succ k ih => rw [answer_succ, answer_succ, next_eq hf, ih hf.nextRank, catalog_nextRank]

end Search

/-- The ranks that a cursor gives are those of the images that it selects. -/
theorem Scope.Selects.exists_gives_iff {s : Scope} {cursor : Option Cursor} {P : ImageRef → Prop}
    (h : s.Selects cursor P) (r : Rank) :
    (∃ c, cursor = some c ∧ c.Gives r) ↔ ∃ ref, s.catalog.ref? r = some ref ∧ P ref := by
  constructor
  · intro hex
    obtain ⟨c, hc, hr⟩ := hex
    obtain ⟨ref, href⟩ := h.known c hc r hr
    exact ⟨ref, href, (h.gives_iff r ref href).1 ⟨c, hc, hr⟩⟩
  · intro hex
    obtain ⟨ref, href, hP⟩ := hex
    exact (h.gives_iff r ref href).2 hP

/-- A search that begins with a node keeps going, and gives the ranks of the images that fulfil the
node. -/
theorem Search.fit_begin {s : Scope} (hs : s.Ordered) {node : Node} {cursor : Option Cursor}
    (h : node.open s = .ok cursor) :
    Search.begin s node = .ok ⟨s.catalog, cursor, false⟩ ∧
      (Search.mk s.catalog cursor false).Fit ∧
      ∀ r, (∃ c, cursor = some c ∧ c.Gives r) ↔
        ∃ ref, s.catalog.ref? r = some ref ∧ node.Holds s ref := by
  have hsel := Node.open_selects hs node cursor h
  refine ⟨?_, ⟨rfl, hsel.ascending, hsel.known⟩, hsel.exists_gives_iff⟩
  rw [Search.begin, h]
  rfl

/-- A search goes on with the catalog that it was begun on. -/
theorem Search.catalog_of_begin {s : Scope} {node : Node} {search : Search}
    (h : Search.begin s node = .ok search) : search.catalog = s.catalog := by
  obtain ⟨root, -, rfl⟩ := map_eq_ok_iff.1 h
  rfl

theorem Search.catalog_of_ofText {c : Catalog} {text : String} {opts : Options} {search : Search}
    (h : Search.ofText c text opts = .ok search) : search.catalog = c :=
  Search.catalog_of_begin h

/-! ### Handing out -/

namespace Search

/-- The search hands out the images of a property: their ranks in strictly ascending order, one with
every pull, and the images of these ranks, one with every step. -/
structure HandsOut (search : Search) (P : ImageRef → Prop) : Prop where
  ascending : search.ranks.Pairwise (· < ·)
  mem_ranks : ∀ r, r ∈ search.ranks ↔ ∃ ref, search.catalog.ref? r = some ref ∧ P ref
  nextRank : ∀ k, answer Search.nextRank search k = search.ranks[k]?
  next : ∀ k, answer Search.next search k = search.ranks[k]?.bind search.catalog.ref?

variable {search : Search} {P Q : ImageRef → Prop}

/-- Only the images of the catalog count. -/
theorem HandsOut.congr (h : search.HandsOut P)
    (heq : ∀ r ref, search.catalog.ref? r = some ref → (P ref ↔ Q ref)) : search.HandsOut Q where
  ascending := h.ascending
  mem_ranks := fun r => by
    rw [h.mem_ranks r]
    exact exists_congr fun ref => and_congr_right fun href => heq r ref href
  nextRank := h.nextRank
  next := h.next

/-- An image is among the results of a search if it has the property. -/
theorem HandsOut.mem_results_iff (h : search.HandsOut P) {r : Rank} {ref : ImageRef}
    (href : search.catalog.ref? r = some ref) : ref ∈ search.results ↔ P ref := by
  rw [results, List.mem_filterMap]
  constructor
  · intro hex
    obtain ⟨r', hr', hget⟩ := hex
    obtain ⟨ref', href', hP⟩ := (h.mem_ranks r').1 hr'
    rwa [Option.some.inj (hget.symm.trans href')]
  · exact fun hP => ⟨r, (h.mem_ranks r).2 ⟨ref, href, hP⟩, href⟩

end Search

/-- A search hands out the images that its cursor selects. -/
theorem Scope.Selects.handsOut {s : Scope} {cursor : Option Cursor} {P : ImageRef → Prop}
    (h : s.Selects cursor P) : (Search.mk s.catalog cursor false).HandsOut P := by
  have hfit : (Search.mk s.catalog cursor false).Fit := ⟨rfl, h.ascending, h.known⟩
  obtain ⟨hasc, hmem, hans⟩ := Search.ranks_spec hfit
  refine ⟨hasc, fun r => ?_, hans, fun k => ?_⟩
  · rw [hmem r, h.exists_gives_iff r]
  · rw [Search.answer_next hfit k, hans k]

/-- **A search that begins with a node hands out the images that fulfil the node.** -/
theorem Search.begin_handsOut {s : Scope} (hs : s.Ordered) {node : Node} {cursor : Option Cursor}
    (h : node.open s = .ok cursor) :
    Search.begin s node = .ok ⟨s.catalog, cursor, false⟩ ∧
      (Search.mk s.catalog cursor false).HandsOut (node.Holds s) :=
  ⟨(Search.fit_begin hs h).1, (Node.open_selects hs node cursor h).handsOut⟩

end Query
end AlbumIndex
