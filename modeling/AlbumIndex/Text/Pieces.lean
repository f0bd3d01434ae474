import AlbumIndex.Text.CharClass

/-!
# Cutting texts into pieces

Texts are cut at separators, trimmed of blanks, and measured in the bytes of their encoding.  All
functions work on lists of characters.

## Main definitions

* `pieces` — the stretches between the separators; there is always one more than separators.
* `words` — the non-empty stretches between blanks.
* `trim` — a text without the blanks at its two ends.
* `lines` — the lines of a text, without their ends.
* `Occurs` and `occurs` — a text stands somewhere inside another one.
* `bytePrefix?`, `byteSuffix?` — a text cut after a number of bytes, if that is between two
  characters.
-/

namespace AlbumIndex
namespace Text

/-! ### Separators -/

/-- The stretches between the characters that `cut` holds of.  Two separators in a row have an
empty stretch between them, and so have a separator and an end of the text. -/
def pieces (cut : Char → Bool) : List Char → List (List Char)
  | [] => [[]]
  | c :: cs =>
    if cut c then [] :: pieces cut cs
    else match pieces cut cs with
      | [] => [[c]]
      | p :: ps => (c :: p) :: ps

theorem pieces_ne_nil (cut : Char → Bool) (cs : List Char) : pieces cut cs ≠ [] := by
  cases cs with
  | nil => simp [pieces]
  | cons c cs =>
    unfold pieces
    split
    · simp
    · split <;> simp

theorem pieces_eq_splitOnP (cut : Char → Bool) (cs : List Char) : pieces cut cs = cs.splitOnP cut := by
  induction cs with
  | nil => rw [pieces, List.splitOnP_nil]
  | cons c cs ih =>
    rw [pieces, List.splitOnP_cons_eq_if_modifyHead, ih]
    split
    · rfl
    · split
      · next hnil => exact absurd hnil (List.splitOnP_ne_nil cut cs)
      · next hcons => rw [hcons, List.modifyHead_cons]

/-- A text without separators is its only piece. -/
theorem pieces_of_forall_not {cut : Char → Bool} {cs : List Char} (h : ∀ c ∈ cs, cut c = false) :
    pieces cut cs = [cs] := by
  induction cs with
  | nil => rfl
  | cons c cs ih =>
    have hc : cut c = false := h c List.mem_cons_self
    have hcs := ih fun x hx => h x (List.mem_cons_of_mem _ hx)
    simp [pieces, hc, hcs]

/-- No piece holds a separator. -/
theorem cut_eq_false_of_mem_pieces {cut : Char → Bool} {cs p : List Char} (hp : p ∈ pieces cut cs) :
    ∀ c ∈ p, cut c = false := by
  induction cs generalizing p with
  | nil => simp [pieces] at hp; simp [hp]
  | cons c cs ih =>
    unfold pieces at hp
    split at hp
    · rcases List.mem_cons.1 hp with rfl | hp
      · simp
      · exact ih hp
    · next hc =>
      split at hp
      · simp at hp; simp [hp, hc]
      · next q qs hq =>
        rcases List.mem_cons.1 hp with rfl | hp
        · intro x hx
          rcases List.mem_cons.1 hx with rfl | hx
          · simpa using hc
          · exact ih (by rw [hq]; exact List.mem_cons_self) x hx
        · exact ih (by rw [hq]; exact List.mem_cons_of_mem _ hp)

/-- The non-empty stretches between blanks. -/
def words (cs : List Char) : List (List Char) := (pieces isBlank cs).filter fun w => !w.isEmpty

/-- A text without the blanks at its beginning. -/
def trimStart (cs : List Char) : List Char := cs.dropWhile isBlank

/-- A text without the blanks at its two ends. -/
def trim (cs : List Char) : List Char := (trimStart (trimStart cs).reverse).reverse

/-- The parts before and after the first place where the text `mark` stands. -/
def cutAt? (mark : List Char) : List Char → Option (List Char × List Char)
  | [] => if mark.isEmpty then some ([], []) else none
  | c :: cs =>
    if mark.isPrefixOf (c :: cs) then some ([], (c :: cs).drop mark.length)
    else (cutAt? mark cs).map fun (before, after) => (c :: before, after)

/-! ### Lines -/

/-- The line without a carriage return at its end. -/
def withoutReturn (line : List Char) : List Char :=
  if line.getLast? = some '\r' then line.dropLast else line

/-- The lines of a text: a line ends with a line feed, which a carriage return may precede, or with
the text.  A line feed at the very end opens no further line. -/
def lines (cs : List Char) : List (List Char) :=
  match (pieces (· == '\n') cs).reverse with
  | [] => []
  | last :: ended =>
    (ended.map withoutReturn).reverse ++ (if last.isEmpty then [] else [last])

/-! ### Texts inside texts -/

/-- The text `part` stands somewhere inside the text. -/
def Occurs (part whole : List Char) : Prop := ∃ before after, whole = before ++ part ++ after

/-- The test for `Occurs`. -/
def occurs (part : List Char) : List Char → Bool
  | [] => part.isEmpty
  | c :: cs => part.isPrefixOf (c :: cs) || occurs part cs

theorem occurs_iff {part whole : List Char} : occurs part whole = true ↔ Occurs part whole := by
  induction whole with
  | nil =>
    simp only [occurs, List.isEmpty_iff, Occurs]
    constructor
    · rintro rfl; exact ⟨[], [], rfl⟩
    · rintro ⟨b, a, h⟩
      have := congrArg List.length h
      simp only [List.length_nil, List.length_append] at this
      exact List.eq_nil_of_length_eq_zero (by omega)
  | cons c cs ih =>
    simp only [occurs, Bool.or_eq_true, List.isPrefixOf_iff_prefix, ih]
    constructor
    · rintro (⟨t, h⟩ | ⟨b, a, h⟩)
      · exact ⟨[], t, by simpa using h.symm⟩
      · exact ⟨c :: b, a, by simp [h]⟩
    · rintro ⟨b, a, h⟩
      cases b with
      | nil => exact Or.inl ⟨a, by simpa using h.symm⟩
      | cons d b =>
        simp only [List.cons_append, List.cons.injEq] at h
        exact Or.inr ⟨b, a, h.2⟩

/-! ### Bytes -/

/-- The number of bytes of the encoded text. -/
def byteLength (cs : List Char) : Nat := cs.foldr (fun c n => c.utf8Size + n) 0

/-- The characters that fill exactly the first `n` bytes; none if the text is shorter or the cut
would fall inside a character. -/
def bytePrefix? (n : Nat) : List Char → Option (List Char)
  | [] => if n = 0 then some [] else none
  | c :: cs =>
    if n = 0 then some []
    else if c.utf8Size ≤ n then (bytePrefix? (n - c.utf8Size) cs).map (c :: ·)
    else none

/-- The characters after the first `n` bytes; none if the text is shorter or the cut would fall
inside a character. -/
def byteSuffix? (n : Nat) : List Char → Option (List Char)
  | [] => if n = 0 then some [] else none
  | c :: cs =>
    if n = 0 then some (c :: cs)
    else if c.utf8Size ≤ n then byteSuffix? (n - c.utf8Size) cs
    else none

end Text
end AlbumIndex
