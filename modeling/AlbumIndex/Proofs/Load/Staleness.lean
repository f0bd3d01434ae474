import AlbumIndex.Proofs.Load.Again

/-!
# Stale snapshots

The time of a folder is rounded to whole seconds before anything is done with it, and a snapshot that
is taken anew bears it in milliseconds.  Such a number is a multiple of a thousand, so nothing is cut
off when it is read back, before the epoch as little as after it.  What a later load compares are
then two rounded times.  A time a second later is rounded to a later second, and an earlier time to
no later one; of times in between, those are seen that lie beyond a half second.

## Main definitions

* `Instant.nearest` — the nearest whole second.
* `Instant.Rounds` — no leap second, and not at the very end of the calendar.

## Main results

* `Instant.ofMillis_toMillis` — whole seconds survive being stored.
* `Instant.nearest_mono`, `Instant.nearest_addSeconds_one` — earlier and later times rounded.
* `Turn.stale_later_iff` — **a later load takes a snapshot anew if the folder's second is later.**
-/

namespace AlbumIndex

open Calendar Disk

/-! ### Nearest seconds -/

namespace Calendar
namespace Instant

/-- The nearest whole second, a half going up. -/
def nearest (t : Instant) : Int := if 500000000 ≤ t.nanos then t.seconds + 1 else t.seconds

/-- The instant is no leap second, and the calendar has the second nearest to it. -/
structure Rounds (t : Instant) : Prop where
  nanos_lt : t.nanos < 1000000000
  inRange : InRange t.nearest

variable {t u next : Instant}

theorem Rounds.round_eq (h : t.Rounds) : t.round = ofSeconds t.nearest := if_pos h.inRange

/-- **Whole seconds survive being stored.**  A stored number is cut toward the epoch, but none has
anything to be cut off. -/
theorem ofMillis_toMillis {seconds : Int} (h : InRange seconds) :
    ofMillis (ofSeconds seconds).toMillis = ofSeconds seconds := by
  have hmillis : (ofSeconds seconds).toMillis.toInt = 1000 * seconds := by
    obtain ⟨hlo, hhi⟩ := h
    unfold minSeconds at hlo
    unfold maxSeconds at hhi
    apply Int64.toInt_ofInt_of_le
    · show -2 ^ 63 ≤ 1000 * seconds
      omega
    · show 1000 * seconds < 2 ^ 63
      omega
  have hseconds : (1000 * seconds).tdiv 1000 = seconds :=
    Int.mul_tdiv_cancel_left seconds (by decide)
  rw [ofMillis, hmillis, hseconds]
  exact if_pos h

theorem Rounds.isStorable (h : t.Rounds) : t.IsStorable := by
  rw [IsStorable, h.round_eq]
  exact ofMillis_toMillis h.inRange

theorem ofSeconds_lt_ofSeconds {a b : Int} : ofSeconds a < ofSeconds b ↔ a < b := by
  simp [lt_def, ofSeconds]

/-- An earlier time is rounded to no later second. -/
theorem nearest_mono (h : t ≤ u) : t.nearest ≤ u.nearest := by
  unfold nearest
  rcases le_def.1 h with hseconds | ⟨hseconds, hnanos⟩
  · split <;> split <;> omega
  · split <;> split <;> omega

/-- A second later is rounded to the next second. -/
theorem nearest_addSeconds_one (h : t.nanos < 1000000000) (hnext : t.addSeconds 1 = .ok next) :
    next.nearest = t.nearest + 1 := by
  unfold addSeconds at hnext
  rw [decide_eq_true h, Bool.true_or, if_pos rfl] at hnext
  dsimp only at hnext
  split at hnext
  · cases hnext
    by_cases hhalf : 500000000 ≤ t.nanos
    · simp [nearest, hhalf]
    · simp [nearest, hhalf]
  · cases hnext

end Instant
end Calendar

/-! ### Two loads -/

namespace Turn

variable {l : Loader} {opts later : LoadOptions} {first second : Turn}

/-- A snapshot that was taken anew is stale for a time that is rounded to a later second. -/
theorem isStale_iff_nearest (hrebuilt : first.isStale l opts = true) (hrel : second.rel = first.rel)
    (hstored : l.store.Holds second.tree first.rel (first.snapshot l opts))
    (hforce : later.force = false) (hfirst : first.modified.Rounds)
    (hsecond : second.modified.Rounds) :
    second.isStale l later = true ↔ first.modified.nearest < second.modified.nearest := by
  have hfound : second.found l = first.snapshot l opts := by
    rw [found, hrel]
    exact hstored.read_eq
  have hstamp : Instant.ofMillis first.modified.round.toMillis = first.modified.round :=
    hfirst.isStorable
  rw [isStale, hfound, hforce, Bool.or_false, Snapshot.isStale, stamp_snapshot hrebuilt]
  show decide (Instant.ofMillis first.modified.round.toMillis < second.modified.round) = true ↔ _
  rw [decide_eq_true_eq, hstamp, hfirst.round_eq, hsecond.round_eq, Instant.ofSeconds_lt_ofSeconds]

/-- **A later load takes a snapshot anew exactly if the time of the folder, rounded, is later.**  Of
two turns of a folder, in whatever loads, the first has taken the snapshot anew, and the second finds
it stored.  Then the snapshot bears the rounded time of the first turn, and is stale if that of the
second is later: always if a second has passed, and never if the time is not later at all. -/
theorem stale_later_iff (hrebuilt : first.isStale l opts = true) (hrel : second.rel = first.rel)
    (hstored : l.store.Holds second.tree first.rel (first.snapshot l opts))
    (hforce : later.force = false) (hfirst : first.modified.Rounds)
    (hsecond : second.modified.Rounds) :
    (second.isStale l later = true ↔ first.modified.round < second.modified.round) ∧
      (∀ next, first.modified.addSeconds 1 = .ok next → next ≤ second.modified →
        second.isStale l later = true) ∧
      (second.modified ≤ first.modified → second.isStale l later = false) ∧
      ∃ millis, (first.snapshot l opts).stamp = some millis ∧
        Instant.ofMillis millis = first.modified.round := by
  have hstale := isStale_iff_nearest hrebuilt hrel hstored hforce hfirst hsecond
  refine ⟨?_, ?_, ?_, _, stamp_snapshot hrebuilt, hfirst.isStorable⟩
  · rw [hstale, hfirst.round_eq, hsecond.round_eq, Instant.ofSeconds_lt_ofSeconds]
  · intro next hnext hle
    have hmono := Instant.nearest_mono hle
    rw [Instant.nearest_addSeconds_one hfirst.nanos_lt hnext] at hmono
    exact hstale.2 hmono
  · intro hle
    rw [← Bool.not_eq_true, hstale]
    exact Int.not_lt.2 (Instant.nearest_mono hle)

/-- A folder that was changed one and a half seconds before the epoch.  Its snapshot is not stale for
a time a nanosecond less than a second later, but it is for one a second later. -/
theorem stale_later_before_the_epoch : ∃ first second third : Turn,
    first.modified = ⟨-2, 500000000⟩ ∧ second.modified = ⟨-1, 499999999⟩ ∧
      third.modified = ⟨-1, 500000000⟩ ∧
      first.isStale Loader.sample ⟨true, false, false⟩ = true ∧
      second.isStale Loader.sample ⟨true, false, false⟩ = false ∧
      third.isStale Loader.sample ⟨true, false, false⟩ = true ∧
      ∃ millis, (first.snapshot Loader.sample ⟨true, false, false⟩).stamp = some millis ∧
        Instant.ofMillis millis = ⟨-1, 0⟩ := by
  let keeping : LoadOptions := ⟨true, false, false⟩
  let first : Turn := ⟨"a", ⟨-2, 500000000⟩, [⟨"x.jpg", true, ⟨5, 0⟩⟩], Library.imageDisk []⟩
  let after : FileTree := first.treeAfter Loader.sample keeping
  let second : Turn := { first with modified := ⟨-1, 499999999⟩, tree := after }
  let third : Turn := { first with modified := ⟨-1, 500000000⟩, tree := after }
  have hrebuilt : first.isStale Loader.sample keeping = true := by decide +kernel
  have hstored : Loader.sample.store.Holds after first.rel (first.snapshot Loader.sample keeping) := by
    have hplain : ∀ p ∈ after.nodes, p.2.isPlain = true := by decide +kernel
    have hnames : ∀ n ∈ ["a"], IsName n := by decide
    have hkept : first.IsKept Loader.sample keeping := by decide +kernel
    exact holds_treeAfter rfl (SnapshotStore.plain_of_forall_isPlain _ hplain) hnames rfl hkept
  have hrounds : first.modified.Rounds := ⟨by decide, by decide⟩
  obtain ⟨hsecond, -, -, hstamp⟩ := @stale_later_iff Loader.sample keeping keeping first second
    hrebuilt rfl hstored rfl hrounds ⟨by decide, by decide⟩
  obtain ⟨-, hthird, -⟩ := @stale_later_iff Loader.sample keeping keeping first third
    hrebuilt rfl hstored rfl hrounds ⟨by decide, by decide⟩
  refine ⟨first, second, third, rfl, rfl, rfl, hrebuilt, ?_, ?_, hstamp⟩
  · rw [← Bool.not_eq_true, hsecond]
    decide
  · exact hthird ⟨-1, 500000000⟩ rfl (by decide)

end Turn
end AlbumIndex
