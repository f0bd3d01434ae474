/-!
# Good outcomes

A computation that can fail has a good outcome if it gives a result.  What is done to the result
afterwards does not change that, and a row of computations has good outcomes only if each of them
has one.

## Main results

* `map_eq_ok_iff`, `bind_eq_ok_iff` — the result of a computation, changed afterwards or handed to
  another one.
* `exists_map_ok_iff`, `mem_iff_of_map_ok` — the results of a row of computations.
-/

namespace AlbumIndex

section One

variable {ε α β : Type} {f : α → β} {x : Except ε α}

theorem map_eq_ok_iff {b : β} : x.map f = .ok b ↔ ∃ a, x = .ok a ∧ f a = b := by
  cases x with
  | error e => exact ⟨nofun, nofun⟩
  | ok a =>
    constructor
    · intro h
      exact ⟨a, rfl, Except.ok.inj h⟩
    · rintro ⟨a', ha, hb⟩
      rw [Except.ok.inj ha, ← hb]
      rfl

theorem bind_eq_ok_iff {g : α → Except ε β} {b : β} :
    x.bind g = .ok b ↔ ∃ a, x = .ok a ∧ g a = .ok b := by
  cases x with
  | error e => exact ⟨nofun, nofun⟩
  | ok a =>
    constructor
    · intro h
      exact ⟨a, rfl, h⟩
    · rintro ⟨a', ha, hb⟩
      rw [Except.ok.inj ha]
      exact hb

theorem exists_map_eq_ok_iff : (∃ b, x.map f = .ok b) ↔ ∃ a, x = .ok a := by
  cases x with
  | error e => exact ⟨nofun, nofun⟩
  | ok a => exact ⟨fun _ => ⟨a, rfl⟩, fun _ => ⟨f a, rfl⟩⟩

theorem exists_map_eq_error_iff : (∃ e, x.map f = .error e) ↔ ∃ e, x = .error e := by
  cases x <;> simp [Except.map]

end One

section Rows

variable {α β γ : Type} {f : α → Except β γ}

/-- The outcomes of a list are all good if each of them is. -/
theorem exists_map_ok_iff {ts : List α} :
    (∃ as : List γ, ts.map f = as.map .ok) ↔ ∀ t ∈ ts, ∃ a, f t = .ok a := by
  induction ts with
  | nil => exact ⟨fun _ t ht => absurd ht List.not_mem_nil, fun _ => ⟨[], rfl⟩⟩
  | cons t ts ih =>
    rw [List.forall_mem_cons, ← ih]
    constructor
    · rintro ⟨as, has⟩
      cases as with
      | nil => cases has
      | cons a as =>
        obtain ⟨hfirst, hrest⟩ := List.cons.inj has
        exact ⟨⟨a, hfirst⟩, as, hrest⟩
    · rintro ⟨⟨a, ha⟩, as, has⟩
      exact ⟨a :: as, by rw [List.map_cons, List.map_cons, ha, has]⟩

theorem mem_iff_of_map_ok {ts : List α} {as : List γ} (hall : ts.map f = as.map .ok) {a : γ} :
    a ∈ as ↔ ∃ t ∈ ts, f t = .ok a := by
  have hmem : Except.ok a ∈ as.map (Except.ok (ε := β)) ↔ a ∈ as := by simp
  rw [← hmem, ← hall, List.mem_map]

end Rows

end AlbumIndex
