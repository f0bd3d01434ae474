import AlbumIndex.Bytes.Codec

/-!
# Codecs with one written form for each value

A codec reads one value after the other from a row of bytes in which nothing marks where a value
ends.  That works if it reads exactly what it writes: the written form of a value with anything
behind it, and nothing else.  Then a value has one written form only, and no written form is the
beginning of another one, so that a row of bytes that was cut short is not taken for a shorter value.

Numbers are written in a fixed width, so not every number has a written form; a list or a text has
one if its length fits into eight bytes.  Which values a codec can write is therefore part of the
law, and every way to make codecs of others keeps it.

## Main definitions

* `Codec.Canonical` — a codec reads exactly the written forms of the values that fit.
* `Codec.numbersOf` — how many numbers a width has room for.

## Main results

* `Codec.Canonical.both`, `Codec.Canonical.option`, `Codec.Canonical.list`, … — the law is kept.
* `Codec.Canonical.read_eq_none_of_append` — **what is cut short is not read.**
-/

namespace AlbumIndex
namespace Codec

variable {α β : Type}

/-! ### The law -/

/-- The codec reads from the front of a row of bytes the written forms of the values that fit, and
nothing else. -/
def Canonical (c : Codec α) (fits : α → Prop) : Prop :=
  ∀ bytes a rest, c.read bytes = some (a, rest) ↔ fits a ∧ bytes = c.write a ++ rest

namespace Canonical

variable {c : Codec α} {d : Codec β} {fits : α → Prop} {fitsToo : β → Prop}

/-- What has been written is read back, whatever stands behind it. -/
theorem read_write (h : c.Canonical fits) {a : α} (ha : fits a) (rest : Bytes) :
    c.read (c.write a ++ rest) = some (a, rest) := (h _ a rest).2 ⟨ha, rfl⟩

/-- **What is cut short is not read**: no strict beginning of a written form begins with a written
form. -/
theorem read_eq_none_of_append (h : c.Canonical fits) {a : α} (ha : fits a) {front cut : Bytes}
    (happend : front ++ cut = c.write a) (hcut : cut ≠ []) : c.read front = none := by
  rw [Option.eq_none_iff_forall_ne_some]
  rintro ⟨b, rest⟩ hread
  obtain ⟨hb, hfront⟩ := (h _ b rest).1 hread
  -- the whole form can be read in two ways, and one of them leaves the cut behind
  have hone : c.read (c.write a) = some (a, []) := (h _ a []).2 ⟨ha, (List.append_nil _).symm⟩
  have htwo : c.read (c.write a) = some (b, rest ++ cut) := by
    rw [← happend, hfront, List.append_assoc]
    exact h.read_write hb _
  have hrest : [] = rest ++ cut := (Prod.mk.inj (Option.some.inj (hone.symm.trans htwo))).2
  exact hcut (List.append_eq_nil_iff.1 hrest.symm).2

theorem congr {fits' : α → Prop} (h : c.Canonical fits) (hfits : ∀ a, fits a ↔ fits' a) :
    c.Canonical fits' := by
  intro bytes a rest
  rw [h bytes a rest, hfits a]

/-! ### Codecs made of others -/

/-- Values that stand for others, if none of those that fit is lost on the way. -/
theorem through (h : c.Canonical fits) {give : β → α} {take : α → β}
    (htake : ∀ b, take (give b) = b) (hgive : ∀ a, fits a → give (take a) = a) :
    (c.through give take).Canonical fun b => fits (give b) := by
  intro bytes b rest
  simp only [Codec.through, Option.map_eq_some_iff, Prod.exists, Prod.mk.injEq]
  constructor
  · rintro ⟨a, rest', hread, rfl, rfl⟩
    obtain ⟨ha, hbytes⟩ := (h _ a rest').1 hread
    rw [hgive a ha]
    exact ⟨ha, hbytes⟩
  · rintro ⟨hb, hbytes⟩
    exact ⟨give b, rest, (h _ _ rest).2 ⟨hb, hbytes⟩, htake b, rfl⟩

theorem both (hc : c.Canonical fits) (hd : d.Canonical fitsToo) :
    (c.both d).Canonical fun p => fits p.1 ∧ fitsToo p.2 := by
  rintro bytes ⟨a, b⟩ rest
  simp only [Codec.both, bind, Option.bind_eq_some_iff, Prod.exists, pure, Option.some.injEq,
    Prod.mk.injEq]
  constructor
  · rintro ⟨a', middle, ha, b', rest', hb, ⟨rfl, rfl⟩, rfl⟩
    obtain ⟨hfits, rfl⟩ := (hc _ _ _).1 ha
    obtain ⟨hfitsToo, rfl⟩ := (hd _ _ _).1 hb
    exact ⟨⟨hfits, hfitsToo⟩, (List.append_assoc _ _ _).symm⟩
  · rintro ⟨⟨ha, hb⟩, rfl⟩
    rw [List.append_assoc]
    exact ⟨a, _, hc.read_write ha _, b, rest, hd.read_write hb _, ⟨rfl, rfl⟩, rfl⟩

end Canonical

/-! ### Numbers -/

/-- The number of numbers that so many bytes have room for. -/
def numbersOf : Nat → Nat
  | 0 => 1
  | width + 1 => 256 * numbersOf width

/-- Numbers are read in the width that they were written in, if they have room there. -/
theorem natural_canonical (width : Nat) : (natural width).Canonical (· < numbersOf width) := by
  change ∀ bytes n rest, readLow width bytes = some (n, rest) ↔
    n < numbersOf width ∧ bytes = lowBytes width n ++ rest
  induction width with
  | zero =>
    intro bytes n rest
    simp only [readLow, numbersOf, lowBytes, Option.some.injEq, Prod.mk.injEq, List.nil_append]
    constructor
    · rintro ⟨rfl, rfl⟩
      exact ⟨Nat.one_pos, rfl⟩
    · rintro ⟨hn, rfl⟩
      exact ⟨by omega, rfl⟩
  | succ width ih =>
    intro bytes n rest
    cases bytes with
    | nil => simp [readLow, lowBytes]
    | cons b bytes =>
      simp only [readLow, numbersOf, lowBytes, Option.map_eq_some_iff, Prod.exists,
        Prod.mk.injEq, List.cons_append, List.cons.injEq]
      have hb : b.toNat < 256 := b.toNat_lt
      constructor
      · rintro ⟨high, rest', hread, rfl, rfl⟩
        obtain ⟨hhigh, rfl⟩ := (ih _ _ _).1 hread
        have hmod : (b.toNat + 256 * high) % 256 = b.toNat := by omega
        have hdiv : (b.toNat + 256 * high) / 256 = high := by omega
        rw [hmod, hdiv]
        exact ⟨by omega, UInt8.ofNat_toNat.symm, rfl⟩
      · rintro ⟨hn, rfl, rfl⟩
        refine ⟨n / 256, rest, (ih _ _ _).2 ⟨by omega, rfl⟩, ?_, rfl⟩
        have hlow : (UInt8.ofNat (n % 256)).toNat = n % 256 :=
          UInt8.toNat_ofNat_of_lt' (Nat.mod_lt n (by decide))
        omega

theorem word32_canonical : word32.Canonical fun _ => True :=
  ((natural_canonical 4).through (fun _ => UInt32.ofNat_toNat)
    fun _ hn => UInt32.toNat_ofNat_of_lt' hn).congr fun w => iff_true_intro w.toNat_lt

theorem word64_canonical : word64.Canonical fun _ => True :=
  ((natural_canonical 8).through (fun _ => UInt64.ofNat_toNat)
    fun _ hn => UInt64.toNat_ofNat_of_lt' hn).congr fun w => iff_true_intro w.toNat_lt

theorem signed32_canonical : signed32.Canonical fun _ => True :=
  word32_canonical.through (fun n => n.toInt32_toUInt32) fun w _ => w.toUInt32_toInt32

theorem signed64_canonical : signed64.Canonical fun _ => True :=
  word64_canonical.through (fun n => n.toInt64_toUInt64) fun w _ => w.toUInt64_toInt64

/-- Only the bytes 0 and 1 are read. -/
theorem flag_canonical : flag.Canonical fun _ => True := by
  intro bytes b rest
  cases bytes with
  | nil => simp [flag]
  | cons tag bytes =>
    by_cases hzero : tag = 0
    · subst hzero
      cases b <;> simp [flag]
    · by_cases hone : tag = 1
      · subst hone
        cases b <;> simp [flag]
      · cases b <;> simp [flag, hzero, hone]

/-! ### Options, lists and texts -/

variable {c : Codec α} {fits : α → Prop}

theorem Canonical.option (h : c.Canonical fits) : c.option.Canonical fun o => ∀ a ∈ o, fits a := by
  intro bytes o rest
  simp only [Codec.option, bind, Option.bind_eq_some_iff, Prod.exists]
  constructor
  · rintro ⟨there, middle, hflag, hread⟩
    obtain ⟨-, rfl⟩ := (flag_canonical _ _ _).1 hflag
    cases there with
    | false =>
      obtain ⟨rfl, rfl⟩ := Prod.mk.inj (Option.some.inj hread)
      exact ⟨nofun, rfl⟩
    | true =>
      obtain ⟨⟨a, rest'⟩, ha, hsome⟩ := Option.bind_eq_some_iff.1 hread
      obtain ⟨rfl, rfl⟩ := Prod.mk.inj (Option.some.inj hsome)
      obtain ⟨hfits, rfl⟩ := (h _ _ _).1 ha
      refine ⟨fun b hb => ?_, (List.append_assoc _ _ _).symm⟩
      obtain rfl := Option.some.inj hb
      exact hfits
  · rintro ⟨hfits, rfl⟩
    cases o with
    | none => exact ⟨false, rest, flag_canonical.read_write trivial rest, rfl⟩
    | some a =>
      refine ⟨true, c.write a ++ rest, ?_, ?_⟩
      · rw [List.append_assoc]
        exact flag_canonical.read_write trivial _
      · rw [if_pos rfl, h.read_write (hfits a rfl)]
        rfl

/-- So many values in a row. -/
theorem Canonical.readMany_eq_some_iff (h : c.Canonical fits) {n : Nat} {bytes rest : Bytes}
    {items : List α} : readMany c n bytes = some (items, rest) ↔
      items.length = n ∧ (∀ a ∈ items, fits a) ∧ bytes = items.flatMap c.write ++ rest := by
  induction n generalizing bytes items with
  | zero =>
    simp only [readMany, Option.some.injEq, Prod.mk.injEq, List.length_eq_zero_iff]
    constructor
    · rintro ⟨rfl, rfl⟩
      exact ⟨rfl, nofun, rfl⟩
    · rintro ⟨rfl, -, rfl⟩
      exact ⟨rfl, rfl⟩
  | succ n ih =>
    simp only [readMany, bind, Option.bind_eq_some_iff, Prod.exists, pure, Option.some.injEq,
      Prod.mk.injEq]
    constructor
    · rintro ⟨a, middle, ha, items', rest', hitems, rfl, rfl⟩
      obtain ⟨hfits, rfl⟩ := (h _ _ _).1 ha
      obtain ⟨rfl, hall, rfl⟩ := ih.1 hitems
      refine ⟨rfl, List.forall_mem_cons.2 ⟨hfits, hall⟩, ?_⟩
      rw [List.flatMap_cons, List.append_assoc]
    · rintro ⟨hlength, hall, rfl⟩
      cases items with
      | nil => cases hlength
      | cons a items =>
        obtain ⟨hfits, hrest⟩ := List.forall_mem_cons.1 hall
        rw [List.flatMap_cons, List.append_assoc]
        exact ⟨a, _, h.read_write hfits _, items, rest,
          ih.2 ⟨Nat.succ.inj hlength, hrest, rfl⟩, rfl, rfl⟩

theorem Canonical.list (h : c.Canonical fits) :
    c.list.Canonical fun items => items.length < numbersOf 8 ∧ ∀ a ∈ items, fits a := by
  intro bytes items rest
  simp only [Codec.list, bind, Option.bind_eq_some_iff, Prod.exists]
  constructor
  · rintro ⟨count, middle, hcount, hread⟩
    obtain ⟨hlt, rfl⟩ := (natural_canonical 8 _ _ _).1 hcount
    obtain ⟨rfl, hall, rfl⟩ := h.readMany_eq_some_iff.1 hread
    exact ⟨⟨hlt, hall⟩, (List.append_assoc _ _ _).symm⟩
  · rintro ⟨⟨hlt, hall⟩, rfl⟩
    rw [List.append_assoc]
    exact ⟨_, _, (natural_canonical 8).read_write hlt _, h.readMany_eq_some_iff.2 ⟨rfl, hall, rfl⟩⟩

/-- A row of bytes is the encoded form of at most one text. -/
theorem fromUTF8?_eq_some_iff {bytes : ByteArray} {s : String} :
    String.fromUTF8? bytes = some s ↔ bytes = s.toUTF8 := by
  unfold String.fromUTF8?
  constructor
  · intro h
    split at h
    · rw [← Option.some.inj h]
      rfl
    · cases h
  · rintro rfl
    exact dif_pos s.isValidUTF8

theorem text_canonical : text.Canonical fun s => s.utf8ByteSize < numbersOf 8 := by
  intro bytes s rest
  simp only [text, bind, Option.bind_eq_some_iff, Prod.exists]
  constructor
  · rintro ⟨size, middle, hsize, hread⟩
    obtain ⟨hlt, rfl⟩ := (natural_canonical 8 _ _ _).1 hsize
    split at hread
    · cases hread
    · next hlong =>
      obtain ⟨s', htext, hsome⟩ := Option.bind_eq_some_iff.1 hread
      obtain ⟨rfl, rfl⟩ := Prod.mk.inj (Option.some.inj hsome)
      have hbytes : middle.take size = s'.toUTF8.data.toList := by
        rw [← fromUTF8?_eq_some_iff.1 htext]
      have hlength : s'.utf8ByteSize = size := by
        rw [← List.length_take_of_le (Nat.le_of_not_lt hlong), hbytes]
        rfl
      refine ⟨hlength ▸ hlt, ?_⟩
      rw [hlength, List.append_assoc, ← hbytes, List.take_append_drop]
  · rintro ⟨hlt, rfl⟩
    have hlength : s.toUTF8.data.toList.length = s.utf8ByteSize := rfl
    rw [List.append_assoc]
    refine ⟨_, _, (natural_canonical 8).read_write hlt _, ?_⟩
    rw [if_neg (by rw [List.length_append]; omega), ← hlength, List.take_left, List.drop_left,
      fromUTF8?_eq_some_iff.2 rfl]
    rfl

end Codec
end AlbumIndex
