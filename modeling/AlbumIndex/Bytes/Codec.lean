/-!
# Byte codecs

A codec writes values of a type as bytes and reads them back from the front of a row of bytes,
leaving the rest.  Numbers have a fixed width and their lowest byte first, an optional value is
preceded by a byte that is 1 if it is there and 0 if not, and lists and texts by their length in
eight bytes.

## Main definitions

* `Codec` — how the values of a type are written and read.
* `Codec.word32`, `Codec.word64`, `Codec.flag`, `Codec.text` — codecs of single values.
* `Codec.option`, `Codec.list`, `Codec.both`, `Codec.through` — codecs made of others.
-/

namespace AlbumIndex

/-- The bytes of a file. -/
abbrev Bytes := List UInt8

/-- How the values of a type are written, and read from the front of a row of bytes. -/
structure Codec (α : Type) where
  write : α → Bytes
  /-- The value that a row of bytes begins with, and the bytes behind it. -/
  read : Bytes → Option (α × Bytes)

namespace Codec

/-! ### Numbers -/

/-- The lowest bytes of a number, lowest first. -/
def lowBytes : Nat → Nat → Bytes
  | 0, _ => []
  | width + 1, n => UInt8.ofNat (n % 256) :: lowBytes width (n / 256)

/-- The number whose lowest bytes are given, lowest first. -/
def readLow : Nat → Bytes → Option (Nat × Bytes)
  | 0, bytes => some (0, bytes)
  | _ + 1, [] => none
  | width + 1, b :: bytes =>
    (readLow width bytes).map fun (n, rest) => (b.toNat + 256 * n, rest)

/-- A number in so many bytes. -/
def natural (width : Nat) : Codec Nat := ⟨lowBytes width, readLow width⟩

/-- The codec of values that stand for those of another type. -/
def through {α β : Type} (c : Codec α) (give : β → α) (take : α → β) : Codec β :=
  ⟨fun b => c.write (give b), fun bytes => (c.read bytes).map fun (a, rest) => (take a, rest)⟩

/-- A word of four bytes. -/
def word32 : Codec UInt32 := (natural 4).through UInt32.toNat UInt32.ofNat

/-- A word of eight bytes. -/
def word64 : Codec UInt64 := (natural 8).through UInt64.toNat UInt64.ofNat

/-- A signed number of four bytes. -/
def signed32 : Codec Int32 := word32.through Int32.toUInt32 UInt32.toInt32

/-- A signed number of eight bytes. -/
def signed64 : Codec Int64 := word64.through Int64.toUInt64 UInt64.toInt64

/-- Yes or no, in a byte that is 1 or 0. -/
def flag : Codec Bool where
  write b := [if b then 1 else 0]
  read
    | [] => none
    | b :: rest => if b = 0 then some (false, rest) else if b = 1 then some (true, rest) else none

/-! ### Compound values -/

/-- A value and then another one. -/
def both {α β : Type} (c : Codec α) (d : Codec β) : Codec (α × β) where
  write p := c.write p.1 ++ d.write p.2
  read bytes := do
    let (a, rest) ← c.read bytes
    let (b, rest) ← d.read rest
    return ((a, b), rest)

/-- A value that may be missing. -/
def option {α : Type} (c : Codec α) : Codec (Option α) where
  write
    | none => flag.write false
    | some a => flag.write true ++ c.write a
  read bytes := do
    let (there, rest) ← flag.read bytes
    if there then
      let (a, rest) ← c.read rest
      return (some a, rest)
    else return (none, rest)

def readMany {α : Type} (c : Codec α) : Nat → Bytes → Option (List α × Bytes)
  | 0, bytes => some ([], bytes)
  | n + 1, bytes => do
    let (a, rest) ← c.read bytes
    let (items, rest) ← readMany c n rest
    return (a :: items, rest)

/-- The values of a list after their number. -/
def list {α : Type} (c : Codec α) : Codec (List α) where
  write items := (natural 8).write items.length ++ items.flatMap c.write
  read bytes := do
    let (count, rest) ← (natural 8).read bytes
    readMany c count rest

/-- The bytes of a text after their number. -/
def text : Codec String where
  write s := (natural 8).write s.utf8ByteSize ++ s.toUTF8.data.toList
  read bytes := do
    let (size, rest) ← (natural 8).read bytes
    if rest.length < size then none
    else
      let s ← String.fromUTF8? ⟨(rest.take size).toArray⟩
      return (s, rest.drop size)

end Codec
end AlbumIndex
