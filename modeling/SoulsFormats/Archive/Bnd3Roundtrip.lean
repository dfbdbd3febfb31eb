import SoulsFormats.Archive.Bnd3
import SoulsFormats.Archive.BinderRoundtrip

set_option autoImplicit false

/-! # BND3 archives are read back

The headers have the size that the format gives them, so that every slot has a known place; names and data
stand where the headers say. -/

namespace SoulsFormats

open Bytes Fallible

/-- The byte order of the file. -/
def Bnd3.hostBigEndian (b : Bnd3) : Bool := b.bigEndian || binderFormatForceBigEndian b.format

/-- The texts that are stored can be stored in Shift-JIS, the version in eight bytes. -/
structure Bnd3.Fits (os : Win32) (b : Bnd3) : Prop where
  version : os.Fits .shiftJis (b.version.getD [])
  versionLength : (os.encoded .shiftJis (b.version.getD [])).length ≤ 8
  names : binderFormatHasNames b.format = true →
    ∀ file ∈ b.files, os.Fits .shiftJis (file.nameUtf8.getD [])

/-! ## Where everything stands -/

section Places

variable (f : UInt8)

def bnd3EntrySize : Nat :=
  8 + binderOffsetWidth f + (if binderFormatHasIds f then 4 else 0)
    + (if binderFormatHasNames f then 4 else 0) + (if binderFormatHasCompression f then 4 else 0)

/-- Where the header of the `i`-th file stands, and in it the id, the offset of the name and the size. -/
def bnd3EntryAt (i : Nat) : Nat := 32 + i * bnd3EntrySize f

def bnd3IdAt (i : Nat) : Nat := bnd3EntryAt f i + 8 + binderOffsetWidth f

def bnd3NameOffsetAt (i : Nat) : Nat := bnd3IdAt f i + (if binderFormatHasIds f then 4 else 0)

def bnd3UncompressedSizeAt (i : Nat) : Nat :=
  bnd3NameOffsetAt f i + (if binderFormatHasNames f then 4 else 0)

theorem bnd3EntryAt_zero : bnd3EntryAt f 0 = 32 := by rw [bnd3EntryAt, Nat.zero_mul]

theorem bnd3EntryAt_succ (i : Nat) : bnd3EntryAt f (i + 1)
    = bnd3UncompressedSizeAt f i + (if binderFormatHasCompression f then 4 else 0) := by
  rw [bnd3UncompressedSizeAt, bnd3NameOffsetAt, bnd3IdAt, bnd3EntryAt, bnd3EntryAt, bnd3EntrySize,
    Nat.succ_mul]
  ring

end Places

/-- The slots of the writer. -/
inductive Bnd3Slot where
  | headersEnd
  | compressedSize
  | dataOffset
  | nameOffset
  | uncompressedSize

def bnd3Labels (f : UInt8) : BinaryWriter.Labels Bnd3Slot where
  base
    | .headersEnd => "FileHeadersEnd"
    | .compressedSize => "FileCompressedSize"
    | .dataOffset => "FileDataOffset"
    | .nameOffset => "FileNameOffset"
    | .uncompressedSize => "FileUncompressedSize"
  kind
    | .dataOffset => if binderFormatHasLongOffsets f then .i64 else .u32
    | _ => .i32
  noDigits := by
    intro a
    cases a <;> decide
  inj := by
    intro a b h
    cases a <;> cases b <;> first | rfl | exact absurd h (by decide)

/-- Where a slot is reserved. -/
def bnd3Addr (f : UInt8) : Bnd3Slot → Option Nat → Nat
  | .headersEnd, _ => 20
  | .compressedSize, i => bnd3EntryAt f (i.getD 0) + 4
  | .dataOffset, i => bnd3EntryAt f (i.getD 0) + 8
  | .nameOffset, i => bnd3NameOffsetAt f (i.getD 0)
  | .uncompressedSize, i => bnd3UncompressedSizeAt f (i.getD 0)

def bnd3Slots (f : UInt8) : BinaryWriter.FileSlots (Bnd3Slot × Option Nat) :=
  (bnd3Labels f).slots (bnd3Addr f) True

theorem bnd3Slots_headersEnd (f : UInt8) :
    (bnd3Slots f).key (.headersEnd, none) = (cstr "FileHeadersEnd", .i32) :=
  (bnd3Labels f).key_none _ _ _

theorem bnd3Slots_dataOffset (f : UInt8) (i : Nat) :
    IsOffsetSlot (bnd3Slots f) f i (.dataOffset, some i) := rfl

/-! ## What the file holds -/

/-- What the header of a file holds from the start; the rest is filled in. -/
structure Bnd3EntryAt (b : Bnd3) (B : List UInt8) (i : Nat) (file : BinderFile) : Prop where
  flags : Holds B (bnd3EntryAt b.format i) [binderFileFlagsRaw b.bitBigEndian file.flags]
  zero1 : Holds B (bnd3EntryAt b.format i + 1) [0]
  zero2 : Holds B (bnd3EntryAt b.format i + 2) [0]
  zero3 : Holds B (bnd3EntryAt b.format i + 3) [0]
  id : binderFormatHasIds b.format = true →
    Holds B (bnd3IdAt b.format i) (wordBytes b.hostBigEndian 4 file.id.toUInt32.toNat)

/-- What the header of a file says of the data, of which `z` is stored at `p`. -/
structure Bnd3DataAt (codecs : Codecs) (b : Bnd3) (B : List UInt8) (i : Nat) (file : BinderFile)
    (p : Nat) (z : List UInt8) : Prop where
  stores : BinderStores codecs file z
  compressedSize : Holds B (bnd3EntryAt b.format i + 4)
    (wordBytes b.hostBigEndian 4 (Int32.ofNat z.length).toUInt32.toNat)
  offset : Holds B (bnd3EntryAt b.format i + 8) (binderOffsetBytes b.hostBigEndian b.format p)
  uncompressedSize : binderFormatHasCompression b.format = true →
    Holds B (bnd3UncompressedSizeAt b.format i)
      (wordBytes b.hostBigEndian 4 (Int32.ofNat file.data.length).toUInt32.toNat)
  data : Holds B p z

/-- What the file of an archive holds. -/
structure Bnd3Image (os : Win32) (codecs : Codecs) (b : Bnd3) (B : List UInt8) : Prop where
  magic : Holds B 0 (cstr "BND3")
  version : Holds B 4 (fixedText os 8 (b.version.getD []))
  format : Holds B 12 [binderFormatRaw b.bitBigEndian b.format]
  bigEndian : Holds B 13 [if b.bigEndian then 1 else 0]
  bitBigEndian : Holds B 14 [if b.bitBigEndian then 1 else 0]
  zero : Holds B 15 [0]
  count : Holds B 16 (wordBytes b.hostBigEndian 4 (Int32.ofNat b.files.length).toUInt32.toNat)
  headersEnd : ∃ p, 0 < p ∧ p ≤ B.length ∧ Holds B 20 (wordBytes b.hostBigEndian 4
    (if b.writeFileHeadersEnd then Int32.ofNat p else 0).toUInt32.toNat)
  unk18 : Holds B 24 (wordBytes b.hostBigEndian 4 b.unk18.toUInt32.toNat)
  zeros : Holds B 28 (wordBytes b.hostBigEndian 4 (0 : Int32).toUInt32.toNat)
  headers : bnd3EntryAt b.format b.files.length ≤ B.length
  entries : ∀ i file, b.files[i]? = some file → Bnd3EntryAt b B i file
  names : ∀ i file, b.files[i]? = some file → binderFormatHasNames b.format = true →
    ∃ p, BinderNameAt os false b.hostBigEndian B (bnd3NameOffsetAt b.format i) file p
  data : ∀ i file, b.files[i]? = some file → ∃ p z, Bnd3DataAt codecs b B i file p z

/-! ## Writing -/

section Writing

open BinaryWriter

variable {os : Win32} {codecs : Codecs} {b : Bnd3} {pos : Nat}

theorem puts_binder3WriteFileHeader (i : Nat) (file : BinderFile) :
    Puts (bnd3Slots b.format) (binder3WriteFileHeader b.format b.bitBigEndian file.header i)
      ⟨bnd3EntryAt b.format i, b.hostBigEndian, false⟩
      (fun _ st => st = ⟨bnd3EntryAt b.format (i + 1), b.hostBigEndian, false⟩) fun _ _ B =>
        Bnd3EntryAt b B i file := by
  unfold binder3WriteFileHeader binderWriteFileFlags
  refine Puts.droppedU8 trivial (Puts.u8 (Puts.u8 (Puts.u8 (Puts.reserveI32 (.compressedSize, some i) rfl rfl
    (puts_binderReserveDataOffset _ (bnd3Slots_dataOffset _ i) rfl ?_)))))
  refine Puts.given (n := 4) (fun _ => Puts.last (Puts.i32 (Puts.done rfl fun _ h => h))) ?_
  refine Puts.given (n := 4) (F := fun _ => True) (fun _ => Puts.last (Puts.reserveI32 (.nameOffset, some i) rfl
    rfl (Puts.done rfl fun _ => trivial))) ?_
  refine Puts.last (Puts.given (n := 4) (F := fun _ => True) (fun _ => Puts.last (Puts.reserveI32
    (.uncompressedSize, some i) rfl rfl (Puts.done rfl fun _ => trivial))) ?_)
  rw [bnd3EntryAt_succ]
  exact Puts.done rfl fun B _ _ hid hz3 hz2 hz1 hflags =>
    { flags := hflags, zero1 := hz1, zero2 := hz2, zero3 := hz3, id := hid }

theorem puts_binder3WriteFileData (i : Nat) (file : BinderFile) :
    Puts (bnd3Slots b.format) (binder3WriteFileData codecs b.format file.header file.data i)
      ⟨pos, b.hostBigEndian, false⟩ (fun _ st => ∃ p, st = ⟨p, b.hostBigEndian, false⟩) fun _ _ B =>
        ∃ p z, Bnd3DataAt codecs b B i file p z := by
  refine puts_writeFileDataCore.seq fun v st hst => ?_
  obtain ⟨p, size⟩ := v
  obtain ⟨-, rfl⟩ := hst
  refine Puts.fillI32 (.compressedSize, some i) rfl ?_
  refine Puts.given (n := 0) (fun _ => Puts.last (Puts.fillI32 (.uncompressedSize, some i) rfl
    (Puts.done rfl fun _ h => h))) ?_
  refine Puts.last (puts_binderFillDataOffset _ (bnd3Slots_dataOffset _ i) (Puts.done ⟨_, rfl⟩
    fun B hoffset huncompressed hsize hcore => ?_))
  obtain ⟨z, hstores, rfl, hdata⟩ := hcore
  exact ⟨p, z, hstores, hsize, hoffset, huncompressed, hdata⟩

/-- **What the file of an archive holds.** -/
theorem puts_bnd3WriteToWriter (hos : os.AsciiCompatible) (hfit : b.Fits os) :
    Puts (bnd3Slots b.format) (bnd3WriteToWriter os codecs b) ⟨0, false, false⟩ (fun _ _ => True)
      fun _ _ B => Bnd3Image os codecs b B := by
  refine Puts.setBigEndian (Puts.ascii hos (by decide) (Puts.fixStr (by decide) hfit.version.noNul
    hfit.versionLength (Puts.dropped trivial (by decide) (Puts.bool (Puts.bool (Puts.u8 (Puts.i32
    (Puts.reserveI32 _ (bnd3Slots_headersEnd _) rfl (Puts.i32 (Puts.i32 ?_))))))))))
  have hrest : Puts (bnd3Slots b.format) (do
      forIndexed (fun i file => binder3WriteFileHeader b.format b.bitBigEndian file.header i) 0 b.files
      forIndexed (fun i file => binder3WriteFileName os b.format file.header i) 0 b.files
      let pos ← peek position
      fillI32 (cstr "FileHeadersEnd") (if b.writeFileHeadersEnd then Int32.ofNat pos else 0)
      forIndexed (fun i file => binder3WriteFileData codecs b.format file.header file.data i) 0 b.files)
      ⟨bnd3EntryAt b.format 0, b.hostBigEndian, false⟩ (fun _ _ => True) fun _ _ B =>
        (∃ p, 0 < p ∧ p ≤ B.length ∧ Holds B 20 (wordBytes b.hostBigEndian 4
          (if b.writeFileHeadersEnd then Int32.ofNat p else 0).toUInt32.toNat)) ∧
        bnd3EntryAt b.format b.files.length ≤ B.length ∧
        (∀ i file, b.files[i]? = some file → Bnd3EntryAt b B i file) ∧
        (∀ i file, b.files[i]? = some file → binderFormatHasNames b.format = true →
          ∃ p, BinderNameAt os false b.hostBigEndian B (bnd3NameOffsetAt b.format i) file p) ∧
        ∀ i file, b.files[i]? = some file → ∃ p z, Bnd3DataAt codecs b B i file p z := by
    have hheaders := puts_forIndexed (S := bnd3Slots b.format)
      (f := fun i file => binder3WriteFileHeader b.format b.bitBigEndian file.header i)
      (fun i st => st = ⟨bnd3EntryAt b.format i, b.hostBigEndian, false⟩)
      (F := fun i file B => Bnd3EntryAt b B i file) b.files
      (by
        rintro i file _ - rfl
        exact puts_binder3WriteFileHeader i file) rfl
    refine hheaders.seq fun _ st hst => ?_
    subst hst
    have hstart : 0 < bnd3EntryAt b.format b.files.length :=
      Nat.lt_of_lt_of_le (by decide) (Nat.le_add_right 32 _)
    have hnames := puts_forIndexed (S := bnd3Slots b.format)
      (f := fun i file => binder3WriteFileName os b.format file.header i)
      (fun _ st => ∃ p, 0 < p ∧ st = ⟨p, b.hostBigEndian, false⟩)
      (F := fun i file B => binderFormatHasNames b.format = true →
        ∃ p, BinderNameAt os false b.hostBigEndian B (bnd3NameOffsetAt b.format i) file p) b.files
      (by
        rintro i file _ hfile ⟨pos, hpos, rfl⟩
        refine (puts_binder3WriteFileName (.nameOffset, some i) rfl fun hnames =>
          hfit.names hnames file (List.mem_of_getElem? hfile)).conseq fun _ st hst => ?_
        obtain ⟨p, hp, rfl⟩ := hst
        exact ⟨⟨p, hpos.trans_le hp, rfl⟩, fun _ h => h⟩)
      ⟨bnd3EntryAt b.format b.files.length, hstart, rfl⟩
    refine Puts.here (hnames.seq fun _ st hst => ?_)
    obtain ⟨p, hp, rfl⟩ := hst
    refine Puts.here (Puts.position (Puts.fillI32 _ (bnd3Slots_headersEnd _) ?_))
    have hdata := puts_forIndexed (S := bnd3Slots b.format)
      (f := fun i file => binder3WriteFileData codecs b.format file.header file.data i)
      (fun _ st => ∃ p, st = ⟨p, b.hostBigEndian, false⟩)
      (F := fun i file B => ∃ p z, Bnd3DataAt codecs b B i file p z) b.files
      (by
        rintro i file _ - ⟨p, rfl⟩
        exact puts_binder3WriteFileData i file) ⟨p, rfl⟩
    exact hdata.conseq fun _ _ _ => ⟨trivial, fun B hdata hend hle hnames hheaders hentries =>
      ⟨⟨p, hp, hle, hend⟩, hheaders, hentries, hnames, hdata⟩⟩
  rw [bnd3EntryAt_zero] at hrest
  refine (puts_binderAllocHeaders hrest).mono fun _ _ _ B hB hzeros hunk18 hcount hzero hbit hbig hformat
    hversion hmagic => ?_
  obtain ⟨hend, hheaders, hentries, hnames, hdata⟩ := hB
  exact
    { magic := hmagic, version := hversion, format := hformat, bigEndian := hbig, bitBigEndian := hbit,
      zero := hzero, count := hcount, headersEnd := hend, unk18 := hunk18, zeros := hzeros,
      headers := hheaders, entries := hentries, names := hnames, data := hdata }

end Writing

/-! ## Reading -/

section Reading

open BinaryReader

variable {os : Win32} {codecs : Codecs} {b : Bnd3} {B : List UInt8} {flex : Bool}

/-- The header of a file, as the reader has it, for data of `size` bytes at `p`. -/
def bnd3HeaderReadBack (f : UInt8) (file : BinderFile) (p size : Nat) : BinderFileHeader :=
  { flags := file.flags
    id := if binderFormatHasIds f then file.id else -1
    nameUtf8 := if binderFormatHasNames f then some (file.nameUtf8.getD []) else none
    compressedSize := size
    uncompressedSize :=
      (if binderFormatHasCompression f then Int32.ofNat file.data.length else 0).toUInt32.toNat
    dataOffset := p }

theorem reads_binder3ReadName {customAllocator be : Bool} {addr p : Nat} {file : BinderFile}
    (hfit : os.Fits .shiftJis (file.nameUtf8.getD [])) (hname : BinderNameAt os false be B addr file p)
    (hB : B.length ≤ INT32_MAX) :
    Reads (binder3ReadName os customAllocator) ⟨B, addr, be, false, [], flex⟩ (some (file.nameUtf8.getD []))
      ⟨B, addr + 4, be, false, [], flex⟩ := by
  have hfits := textFits_of_holds false hfit hname.name hB
  have hle := hname.offset.le
  have hp := hname.name.le
  rw [length_wordBytes] at hle
  refine Reads.i32 hname.offset ?_
  rw [int32_toInt_ofNat (by omega)]
  exact (reads_getShiftJis hfits hname.name hle).bind (reads_binderCopyName _ _ _)

theorem reads_binder3ReadFileHeader {customAllocator : Bool} {i p : Nat} {file : BinderFile}
    {z : List UInt8} (himage : Bnd3Image os codecs b B) (hfit : b.Fits os) (hB : B.length ≤ INT32_MAX)
    (hfile : b.files[i]? = some file) (hdata : Bnd3DataAt codecs b B i file p z) :
    Reads (binder3ReadFileHeader os customAllocator b.format b.bitBigEndian)
      ⟨B, bnd3EntryAt b.format i, b.hostBigEndian, false, [], flex⟩
      (bnd3HeaderReadBack b.format file p z.length)
      ⟨B, bnd3EntryAt b.format (i + 1), b.hostBigEndian, false, [], flex⟩ := by
  have hentry := himage.entries i file hfile
  have hle := hdata.data.le
  unfold binder3ReadFileHeader
  refine (reads_binderReadFileFlags hentry.flags).bind (Reads.assertU8 hentry.zero1 (by decide) (Reads.assertU8
    hentry.zero2 (by decide) (Reads.assertU8 hentry.zero3 (by decide) (Reads.i32 hdata.compressedSize
    ((reads_binderReadDataOffset (by omega) hdata.offset).bind ?_)))))
  refine Reads.given (v := if binderFormatHasIds b.format then file.id else -1) (n := 4)
    (fun h => ?_) (fun h => by simp [h]) ?_
  · rw [if_pos h]
    exact Reads.last (Reads.i32 (hentry.id h) (Reads.pure _ _))
  refine Reads.given (n := 4)
    (v := if binderFormatHasNames b.format then some (file.nameUtf8.getD []) else none)
    (fun h => ?_) (fun h => by simp [h]) ?_
  · obtain ⟨q, hname⟩ := himage.names i file hfile h
    rw [if_pos h]
    exact reads_binder3ReadName (hfit.names h file (List.mem_of_getElem? hfile)) hname hB
  refine Reads.given (v := if binderFormatHasCompression b.format then Int32.ofNat file.data.length else 0)
    (n := 4) (fun h => ?_) (fun h => by simp [h]) ?_
  · rw [if_pos h]
    exact Reads.last (Reads.i32 (hdata.uncompressedSize h) (Reads.pure _ _))
  rw [bnd3EntryAt_succ, int32_toUInt32_ofNat (by omega)]
  exact Reads.pure _ _

/-- The headers, each with the place and the size of its data. -/
def bnd3HeadersReadBack (b : Bnd3) (places : Nat → Nat × Nat) : List BinderFileHeader :=
  b.files.mapIdx fun i file => bnd3HeaderReadBack b.format file (places i).1 (places i).2

theorem reads_bnd3ReadHeader (flex customAllocator : Bool) {places : Nat → Nat × Nat}
    (himage : Bnd3Image os codecs b B) (hfit : b.Fits os) (hB : B.length ≤ INT32_MAX)
    (hformat : BinderFormatKept b.bitBigEndian b.format) (hunk18 : b.unk18 ∈ [0, Int32.ofInt (-2 ^ 31)])
    (hplaces : ∀ i file, b.files[i]? = some file → ∃ z, Bnd3DataAt codecs b B i file (places i).1 z ∧
      (places i).2 = z.length) :
    Reads (bnd3ReadHeader os customAllocator) ⟨B, 0, false, false, [], flex⟩
      ({ b with version := some (b.version.getD []), files := [] }, bnd3HeadersReadBack b places)
      ⟨B, bnd3EntryAt b.format b.files.length, b.hostBigEndian, false, [], flex⟩ := by
  obtain ⟨p, hp, hpB, hend⟩ := himage.headersEnd
  have hlen : (bnd3HeadersReadBack b places).length = b.files.length := List.length_mapIdx
  have hmany : b.files.length ≤ INT32_MAX := by
    have hle := himage.headers
    have hentry : 1 ≤ bnd3EntrySize b.format := by
      unfold bnd3EntrySize
      omega
    have hmul := Nat.mul_le_mul_left b.files.length hentry
    unfold bnd3EntryAt at hle
    omega
  have hheaders := reads_binderReadFileHeaders
    (binder3ReadFileHeader os customAllocator b.format b.bitBigEndian)
    (fun i => ⟨B, bnd3EntryAt b.format i, b.hostBigEndian, false, [], flex⟩) (bnd3HeadersReadBack b places)
    (by rw [hlen]; exact hmany)
    (by
      intro i h hh
      rw [bnd3HeadersReadBack, List.getElem?_mapIdx, Option.map_eq_some_iff] at hh
      obtain ⟨file, hfile, rfl⟩ := hh
      obtain ⟨z, hdata, hsize⟩ := hplaces i file hfile
      rw [hsize]
      exact reads_binder3ReadFileHeader himage hfit hB hfile hdata)
  rw [hlen, bnd3EntryAt_zero] at hheaders
  have hbit := himage.bitBigEndian.le
  have hwritten : decide (0 < (if b.writeFileHeadersEnd then Int32.ofNat p else 0).toInt)
      = b.writeFileHeadersEnd := by
    cases b.writeFileHeadersEnd with
    | false => rfl
    | true =>
        rw [if_pos rfl, int32_toInt_ofNat (hpB.trans hB)]
        simpa using hp
  refine Reads.ascii himage.magic (Reads.fixStr (by decide) hfit.version hfit.versionLength (by decide)
    himage.version (Reads.got (q := 14) rfl himage.bitBigEndian ?_ (parses_bool _ _)
    ((reads_binderReadFormat hformat himage.format).bind (Reads.bool himage.bigEndian (Reads.assertBool
    himage.bitBigEndian (by simp) (Reads.assertU8 himage.zero (by decide) (Reads.setBig (Reads.i32 himage.count
    (Reads.i32 hend (Reads.assertI32 himage.unk18 hunk18 (Reads.assertI32 himage.zeros (by decide)
    (hheaders.bind ?_))))))))))))
  · have := himage.format.le
    simp only [List.length_singleton] at this
    show 12 ≤ B.length
    omega
  · rw [hwritten]
    exact Reads.pure _ _

theorem reads_bnd3PopulateFromReader (flex customAllocator : Bool) (himage : Bnd3Image os codecs b B)
    (hfit : b.Fits os) (hB : B.length ≤ INT32_MAX) (hformat : BinderFormatKept b.bitBigEndian b.format)
    (hunk18 : b.unk18 ∈ [0, Int32.ofInt (-2 ^ 31)])
    (hinv : ∀ file ∈ b.files, binderFileIsCompressed file.flags = true → codecs.InvertsDcx file) :
    ∃ files c', Reads (bnd3PopulateFromReader os customAllocator codecs) ⟨B, 0, false, false, [], flex⟩
      { b with version := some (b.version.getD []), files := files } c' ∧
        List.Forall₂ (BinderFile.IsReadBack (binderFormatHasIds b.format) (binderFormatHasNames b.format))
          b.files files := by
  obtain ⟨places, hplaces⟩ := BinaryWriter.exists_places
    (F := fun i file (place : Nat × Nat) => ∃ z, Bnd3DataAt codecs b B i file place.1 z ∧ place.2 = z.length)
    fun i file hfile => by
      obtain ⟨p, z, hdata⟩ := himage.data i file hfile
      exact ⟨(p, z.length), z, hdata, rfl⟩
  have hleads : List.Forall₂ (BinderHeaderLeads codecs B (binderFormatHasIds b.format)
      (binderFormatHasNames b.format)) b.files (bnd3HeadersReadBack b places) := by
    refine List.forall₂_iff_get.2 ⟨List.length_mapIdx.symm, fun i hi hi' => ?_⟩
    obtain ⟨z, hdata, hsize⟩ := hplaces i _ (List.getElem?_eq_getElem hi)
    have hle := hdata.data.le
    have hplace : (places i).1 ≤ INT32_MAX := by omega
    have hheader : (bnd3HeadersReadBack b places).get ⟨i, hi'⟩
        = bnd3HeaderReadBack b.format b.files[i] (places i).1 (places i).2 := by
      simp [bnd3HeadersReadBack]
    rw [hheader]
    exact
      { flags := rfl, id := rfl, name := rfl
        stored := ⟨z, (places i).1, hdata.stores, hsize, int64_toInt_ofNat hplace, hdata.data⟩ }
  obtain ⟨files, hfiles, hback⟩ := reads_binderReadFiles flex hleads hinv himage.headers
  have hheader := reads_bnd3ReadHeader flex customAllocator himage hfit hB hformat hunk18 hplaces
  exact ⟨files, _, hheader.bind ((reads_binderAllocFiles _ _).bind (hfiles.bind (Reads.pure _ _))), hback⟩

end Reading

/-! ## The whole run -/

/-- **An archive that is written is read back**: what its header says, and its files in order. -/
theorem bnd3_written_is_read_back (os : Win32) (hos : os.AsciiCompatible) (codecs : Codecs) (b : Bnd3)
    (hfit : b.Fits os) (hformat : BinderFormatKept b.bitBigEndian b.format)
    (hunk18 : b.unk18 ∈ [0, Int32.ofInt (-2 ^ 31)])
    (hinv : ∀ file ∈ b.files, binderFileIsCompressed file.flags = true → codecs.InvertsDcx file)
    (heap : Heap) (hgranting : heap.Calm) (out : List UInt8)
    (hwrite : (bnd3WriteToMemory os codecs b heap).1 = .ok out) (hout : out.length < 2 ^ 31)
    (flexible customAllocator : Bool) (heap' : Heap) (hcalm : heap'.Calm) :
    ∃ files, (bnd3ReadFromMemory os customAllocator codecs flexible out heap').1
        = .ok { b with version := some (b.version.getD []), files := files } ∧
      List.Forall₂ (BinderFile.IsReadBack (binderFormatHasIds b.format) (binderFormatHasNames b.format))
        b.files files := by
  have hmax : INT32_MAX = 2 ^ 31 - 1 := rfl
  obtain ⟨st, -, himage, -⟩ := (puts_bnd3WriteToWriter hos hfit).toMemory (fun _ => hgranting) hwrite
  obtain ⟨files, c', hread, hback⟩ := reads_bnd3PopulateFromReader flexible customAllocator himage hfit
    (by omega) hformat hunk18 hinv
  exact ⟨files, onMemory_withDecompressedReader codecs himage.magic rfl (by decide)
    (BinaryReader.reads_alloc _ fun _ => BinaryReader.reads_alloc _ fun _ => hread) hcalm, hback⟩

/-- A file that is compressed, one without a name and an empty one with the id of the first. -/
def bnd3Sample : Bnd3 :=
  { files := [⟨5, some (cstr "a"), [1, 2, 3], 0x41, .dcxZstd 3⟩, ⟨-7, none, [4], 0x02, .zlib⟩,
      ⟨5, some (cstr "b"), [], 0, .zlib⟩]
    version := some (cstr "07D7R6"), format := 0x3E, bigEndian := true, bitBigEndian := false
    unk18 := Int32.ofInt (-2 ^ 31), writeFileHeadersEnd := true }

/-- What an archive is written to. -/
def bnd3Bytes (os : Win32) (b : Bnd3) : List UInt8 :=
  (bnd3WriteToMemory os storingCodecs b []).1.toOption.getD []

theorem bnd3_sample_is_read_back :
    ∃ files, (bnd3ReadFromMemory .ascii false storingCodecs false (bnd3Bytes .ascii bnd3Sample) []).1
        = .ok { bnd3Sample with files := files } ∧
      List.Forall₂ (BinderFile.IsReadBack true true) bnd3Sample.files files := by
  have hplain : Win32.isPlain (bnd3Sample.version.getD []) = true ∧
      ∀ file ∈ bnd3Sample.files, Win32.isPlain (file.nameUtf8.getD []) = true := by decide +kernel
  have hfits : ∀ t, Win32.isPlain t = true → Win32.ascii.Fits .shiftJis t := fun t ht =>
    Win32.ascii_compatible.fits (Win32.isPlain_iff.1 ht).1 (Win32.isPlain_iff.1 ht).2
  have hfit : bnd3Sample.Fits .ascii :=
    { version := hfits _ hplain.1
      versionLength := by decide +kernel
      names := fun _ file hfile => hfits _ (hplain.2 file hfile) }
  refine bnd3_written_is_read_back .ascii Win32.ascii_compatible storingCodecs bnd3Sample hfit (by decide)
    (by decide) (fun file hfile hcomp => ?_) [] Heap.calm_nil (bnd3Bytes .ascii bnd3Sample)
    (by decide +kernel) (by decide +kernel) false false [] Heap.calm_nil
  obtain rfl : file = ⟨5, some (cstr "a"), [1, 2, 3], 0x41, .dcxZstd 3⟩ := by
    simp only [bnd3Sample, List.mem_cons, List.not_mem_nil, or_false] at hfile
    rcases hfile with rfl | rfl | rfl
    · rfl
    · exact absurd hcomp (by decide)
    · exact absurd hcomp (by decide)
  exact invertsDcx_of_kept storingCodecs_inverts (by decide) trivial fun z hz => by
    cases hz
    decide

/-- A version that Shift-JIS does not have comes back as a question mark. -/
theorem bnd3_thai_version_is_not_read_back :
    let b : Bnd3 := { bnd3Sample with files := [], version := some [0xE0, 0xB8, 0x81] }
    Win32.questionMark.AsciiCompatible ∧ BinderFormatKept b.bitBigEndian b.format ∧
      (bnd3WriteToMemory .questionMark storingCodecs b []).1 = .ok (bnd3Bytes .questionMark b) ∧
      (bnd3ReadFromMemory .questionMark false storingCodecs false (bnd3Bytes .questionMark b) []).1
        = .ok { b with version := some (cstr "?") } :=
  ⟨Win32.questionMark_compatible, by decide, by decide +kernel, by decide +kernel⟩

end SoulsFormats
