import AlbumIndex.Disk.SnapshotStore
import AlbumIndex.Proofs.Bytes.Codec

/-!
# The bytes of a snapshot

A snapshot is written field by field, lists and texts after their length, and nothing tells where
it ends.  Reading goes through the same fields and accepts whatever stands behind them.  So a file
holds a snapshot if it begins with the written form of one; that form is the only one the snapshot
has, and a file that ends within it holds no snapshot at all.

Lengths are written in eight bytes.  Lists and texts that are longer than that allows do not fit
into any memory, but they can be spoken of here, and have no written form.

## Main definitions

* `Snapshot.layout` — the fields one after the other, spelled out byte by byte.
* `Item.Fits`, `Snapshot.Fits` — the lengths in an item or a snapshot can be written.

## Main results

* `Snapshot.encode_eq_layout` — the written form is the one spelled out.
* `Snapshot.decode?_eq_some_iff` — the snapshot that a row of bytes begins with.
* `SnapshotStore.read_of_cut` — a file cut short is read as the empty snapshot.
* `Snapshot.one_written_form` — **written snapshots are read back, in one form only, or not at all.**
-/

namespace AlbumIndex

open Number Disk

/-! ### The layout, byte by byte -/

/-- The lowest bytes of a number, each read off at its own place. -/
def littleEndian (width n : Nat) : Bytes :=
  (List.range width).map fun place => UInt8.ofNat (n >>> (8 * place))

/-- A byte that tells whether there is a value, and the value. -/
def optionBytes {α : Type} (layout : α → Bytes) : Option α → Bytes
  | none => [0]
  | some a => 1 :: layout a

/-- The number of values in eight bytes, and the values. -/
def listBytes {α : Type} (layout : α → Bytes) (items : List α) : Bytes :=
  littleEndian 8 items.length ++ items.flatMap layout

/-- The number of bytes of a text in eight bytes, and the text. -/
def textBytes (s : String) : Bytes := littleEndian 8 s.utf8ByteSize ++ s.toUTF8.data.toList

/-- The milliseconds of a time in eight bytes, negative ones counted down from above. -/
def millisBytes (n : Int64) : Bytes := littleEndian 8 n.toUInt64.toNat

def Number.Binary32.layout (x : Binary32) : Bytes := littleEndian 4 x.bits.toNat

def Stereo.layout (s : Stereo) : Bytes :=
  s.dx.layout ++ (s.dy.layout ++ (s.anaDx.layout ++ s.anaDy.layout))

def ImageAttributes.layout (a : ImageAttributes) : Bytes :=
  optionBytes (fun n => littleEndian 4 n.toNat) a.height ++
    (optionBytes (fun n => littleEndian 4 n.toNat) a.width ++
      (optionBytes (fun n => littleEndian 4 n.toUInt32.toNat) a.rotation ++
        optionBytes Stereo.layout a.stereo))

/-- The last byte tells whether the item is a video. -/
def Item.layout (i : Item) : Bytes :=
  textBytes i.name ++ (optionBytes millisBytes i.fileMillis ++ (optionBytes millisBytes i.itemMillis ++
    (listBytes textBytes i.keywords ++ (optionBytes ImageAttributes.layout i.image ++
      [if i.isVideo then 1 else 0]))))

def Snapshot.layout (s : Snapshot) : Bytes :=
  optionBytes millisBytes s.stamp ++ (listBytes Item.layout s.items ++ listBytes textBytes s.subfolders)

theorem Codec.lowBytes_eq (width n : Nat) : lowBytes width n = littleEndian width n := by
  induction width generalizing n with
  | zero => rfl
  | succ width ih =>
    have hnext : ∀ place, n >>> (8 * (place + 1)) = (n / 256) >>> (8 * place) := by
      intro place
      rw [Nat.mul_succ, Nat.add_comm, Nat.shiftRight_add, Nat.shiftRight_eq_div_pow n 8]
    have hlow : UInt8.ofNat (n % 256) = UInt8.ofNat n := UInt8.ofNat_mod_size
    rw [lowBytes, ih, hlow]
    simp only [littleEndian, List.range_succ_eq_map, List.map_cons, List.map_map]
    exact congrArg _ (List.map_congr_left fun place _ => congrArg UInt8.ofNat (hnext place).symm)

theorem Codec.write_option {α : Type} {c : Codec α} {layout : α → Bytes}
    (h : ∀ a, c.write a = layout a) (o : Option α) : c.option.write o = optionBytes layout o := by
  cases o with
  | none => rfl
  | some a => exact congrArg (1 :: ·) (h a)

theorem Codec.write_list {α : Type} {c : Codec α} {layout : α → Bytes}
    (h : ∀ a, c.write a = layout a) (items : List α) :
    c.list.write items = listBytes layout items := by
  have hlayout : c.write = layout := funext h
  rw [← hlayout, listBytes, ← Codec.lowBytes_eq]
  rfl

theorem Codec.write_text (s : String) : Codec.text.write s = textBytes s := by
  rw [textBytes, ← Codec.lowBytes_eq]
  rfl

theorem Codec.write_signed64 (n : Int64) : Codec.signed64.write n = millisBytes n :=
  Codec.lowBytes_eq 8 _

theorem Stereo.write_eq_layout (s : Stereo) : Stereo.codec.write s = s.layout := by
  simp only [Stereo.layout, Number.Binary32.layout, ← Codec.lowBytes_eq]
  rfl

theorem ImageAttributes.write_eq_layout (a : ImageAttributes) :
    ImageAttributes.codec.write a = a.layout := by
  have hword : ∀ n : UInt32, Codec.word32.write n = littleEndian 4 n.toNat :=
    fun n => Codec.lowBytes_eq 4 _
  have hsigned : ∀ n : Int32, Codec.signed32.write n = littleEndian 4 n.toUInt32.toNat :=
    fun n => Codec.lowBytes_eq 4 _
  rw [layout, ← Codec.write_option hword, ← Codec.write_option hword, ← Codec.write_option hsigned,
    ← Codec.write_option Stereo.write_eq_layout]
  rfl

theorem Item.write_eq_layout (i : Item) : Item.codec.write i = i.layout := by
  rw [layout, ← Codec.write_option Codec.write_signed64, ← Codec.write_option Codec.write_signed64,
    ← Codec.write_list Codec.write_text, ← Codec.write_option ImageAttributes.write_eq_layout,
    ← Codec.write_text]
  rfl

/-- The written form is the one spelled out. -/
theorem Snapshot.encode_eq_layout (s : Snapshot) : s.encode = s.layout := by
  rw [layout, ← Codec.write_option Codec.write_signed64, ← Codec.write_list Item.write_eq_layout,
    ← Codec.write_list Codec.write_text]
  rfl

/-! ### Codecs of the fields -/

theorem Number.Binary32.codec_canonical : Binary32.codec.Canonical fun _ => True :=
  Codec.word32_canonical.through (fun _ => rfl) fun _ _ => rfl

theorem Stereo.codec_canonical : Stereo.codec.Canonical fun _ => True := by
  have h := Binary32.codec_canonical
  exact ((h.both (h.both (h.both h))).through (fun _ => rfl) fun _ _ => rfl).congr fun s => by simp

theorem ImageAttributes.codec_canonical : ImageAttributes.codec.Canonical fun _ => True := by
  have hsize := Codec.word32_canonical.option
  have hrotation := Codec.signed32_canonical.option
  have h := hsize.both (hsize.both (hrotation.both Stereo.codec_canonical.option))
  exact (h.through (fun _ => rfl) fun _ _ => rfl).congr fun a => by simp

/-- The number of texts and the length of each of them can be written. -/
def textsFit (texts : List String) : Prop :=
  texts.length < Codec.numbersOf 8 ∧ ∀ t ∈ texts, t.utf8ByteSize < Codec.numbersOf 8

instance (texts : List String) : Decidable (textsFit texts) := inferInstanceAs (Decidable (_ ∧ _))

/-- The lengths in an item can be written. -/
structure Item.Fits (i : Item) : Prop where
  name : i.name.utf8ByteSize < Codec.numbersOf 8
  keywords : textsFit i.keywords

instance (i : Item) : Decidable i.Fits :=
  decidable_of_iff (i.name.utf8ByteSize < Codec.numbersOf 8 ∧ textsFit i.keywords)
    ⟨fun h => ⟨h.1, h.2⟩, fun h => ⟨h.name, h.keywords⟩⟩

theorem Item.codec_canonical : Item.codec.Canonical Item.Fits := by
  have htime := Codec.signed64_canonical.option
  have h := Codec.text_canonical.both (htime.both (htime.both
    (Codec.text_canonical.list.both
      (ImageAttributes.codec_canonical.option.both Codec.flag_canonical))))
  refine (h.through (fun _ => rfl) fun _ _ => rfl).congr fun i => ⟨fun hi => ?_, fun hi => ?_⟩
  · exact ⟨hi.1, hi.2.2.2.1⟩
  · exact ⟨hi.name, by simp, by simp, hi.keywords, by simp, trivial⟩

namespace Snapshot

/-- The lengths in a snapshot can be written. -/
structure Fits (s : Snapshot) : Prop where
  length : s.items.length < Codec.numbersOf 8
  items : ∀ i ∈ s.items, i.Fits
  subfolders : textsFit s.subfolders

instance (s : Snapshot) : Decidable s.Fits :=
  decidable_of_iff (s.items.length < Codec.numbersOf 8 ∧ (∀ i ∈ s.items, i.Fits) ∧
      textsFit s.subfolders)
    ⟨fun h => ⟨h.1, h.2.1, h.2.2⟩, fun h => ⟨h.length, h.items, h.subfolders⟩⟩

theorem codec_canonical : codec.Canonical Fits := by
  have h := Codec.signed64_canonical.option.both
    (Item.codec_canonical.list.both Codec.text_canonical.list)
  refine (h.through (fun _ => rfl) fun _ _ => rfl).congr fun s => ⟨fun hs => ?_, fun hs => ?_⟩
  · exact ⟨hs.2.1.1, hs.2.1.2, hs.2.2⟩
  · exact ⟨by simp, ⟨hs.length, hs.items⟩, hs.subfolders⟩

/-! ### Files -/

/-- **A row of bytes holds the snapshot whose written form it begins with.** -/
theorem decode?_eq_some_iff {bytes : Bytes} {s : Snapshot} :
    decode? bytes = some s ↔ s.Fits ∧ s.encode <+: bytes := by
  simp only [decode?, Option.map_eq_some_iff, Prod.exists]
  constructor
  · rintro ⟨s, rest, hread, rfl⟩
    obtain ⟨hs, rfl⟩ := (codec_canonical _ _ _).1 hread
    exact ⟨hs, rest, rfl⟩
  · rintro ⟨hs, rest, rfl⟩
    exact ⟨s, rest, codec_canonical.read_write hs rest, rfl⟩

theorem decode?_encode {s : Snapshot} (hs : s.Fits) : decode? s.encode = some s :=
  decode?_eq_some_iff.2 ⟨hs, List.prefix_rfl⟩

/-- The beginning of a written form holds no snapshot. -/
theorem decode?_eq_none_of_cut {s : Snapshot} (hs : s.Fits) {front : Bytes}
    (hfront : front <+: s.encode) (hne : front ≠ s.encode) : decode? front = none := by
  obtain ⟨cut, happend⟩ := hfront
  have hcut : cut ≠ [] := by
    rintro rfl
    exact hne (by rw [← happend, List.append_nil])
  rw [decode?, codec_canonical.read_eq_none_of_append hs happend hcut]
  rfl

end Snapshot

/-- A snapshot whose file holds bytes of none is read as the empty one. -/
theorem Disk.SnapshotStore.read_of_decode?_eq_none {store : SnapshotStore} {tree : FileTree}
    {rel : String} {bytes : Bytes} (hfile : tree.read (store.binaryFile rel) = .ok bytes)
    (hnone : Snapshot.decode? bytes = none) : store.read tree rel = .empty := by
  unfold SnapshotStore.read
  simp only [hfile, hnone, Option.getD_none]

namespace Snapshot

/-- **Written snapshots are read back, in one form only, or not at all.**  The written form is the
one spelled out; it is read back with anything behind it; every file that is read begins with the
written form of the snapshot read from it; and a file that ends within the written form of a
snapshot is read as the empty one. -/
theorem one_written_form :
    (∀ s : Snapshot, s.encode = s.layout) ∧
      (∀ s : Snapshot, s.Fits → ∀ behind, decode? (s.encode ++ behind) = some s) ∧
      (∀ bytes s, decode? bytes = some s → s.encode <+: bytes) ∧
      ∀ s : Snapshot, s.Fits → ∀ front, front <+: s.encode → front ≠ s.encode →
        decode? front = none ∧ ∀ (store : SnapshotStore) (tree : FileTree) (rel : String),
          tree.read (store.binaryFile rel) = .ok front → store.read tree rel = .empty := by
  refine ⟨encode_eq_layout, fun s hs behind => ?_, fun bytes s h => ?_,
    fun s hs front hfront hne => ?_⟩
  · exact decode?_eq_some_iff.2 ⟨hs, List.prefix_append _ _⟩
  · exact (decode?_eq_some_iff.1 h).2
  · have hnone := decode?_eq_none_of_cut hs hfront hne
    exact ⟨hnone, fun store tree rel hfile => SnapshotStore.read_of_decode?_eq_none hfile hnone⟩

/-- A turned stereo image with two keywords, and a video, on a disk that holds all but the last byte
of the snapshot. -/
theorem one_written_form_of_image_and_video : ∃ (s : Snapshot) (front : Bytes) (tree : FileTree),
    s.items.map Item.isVideo = [false, true] ∧ s.Fits ∧ decode? (s.encode ++ [1, 255]) = some s ∧
      front = s.encode.dropLast ∧ decode? front = none ∧
      tree.read (SnapshotStore.binaryFile ⟨⟨"index"⟩⟩ "a") = .ok front ∧
      SnapshotStore.read ⟨⟨"index"⟩⟩ tree "a" = .empty := by
  let stereo : Stereo := ⟨⟨1065353216⟩, ⟨1073741824⟩, ⟨0⟩, ⟨3212836864⟩⟩
  let image : Item := ⟨"a.jpg", some 1000, some (-2000), ["paris", "tour eiffel"],
    some ⟨none, some 640, some (-90), some stereo⟩, false⟩
  let s : Snapshot := ⟨some 5000, [image, ⟨"clip.webm", none, none, [], none, true⟩], ["sub"]⟩
  let tree : FileTree :=
    { nodes := [([], .folder .epoch), ([.text "index"], .folder .epoch),
        ([.text "index", .text "a"], .folder .epoch),
        ([.text "index", .text "a", .text "index.bin"], .file s.encode.dropLast .epoch)]
      current := [], clock := .epoch }
  have hs : s.Fits := by decide +kernel
  have hfile : tree.read (SnapshotStore.binaryFile ⟨⟨"index"⟩⟩ "a") = .ok s.encode.dropLast := by
    rfl
  have hne : s.encode.dropLast ≠ s.encode := by decide +kernel
  obtain ⟨-, hback, -, hcut⟩ := one_written_form
  obtain ⟨hnone, hempty⟩ := hcut s hs _ (List.dropLast_prefix _) hne
  exact ⟨s, _, tree, rfl, hs, hback s hs _, rfl, hnone, hfile, hempty _ _ _ hfile⟩

end Snapshot
end AlbumIndex
