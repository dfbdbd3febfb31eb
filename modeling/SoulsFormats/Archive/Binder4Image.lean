import SoulsFormats.Archive.BinderRoundtrip

set_option autoImplicit false

/-! # The headers of the files of BND4 and BXF4

Both archives have the headers of their files, their names and the hash table of the names in one file, at the
same places. What that file holds of them, and how it is read, is shown here for both; the data may be in
another file. -/

namespace SoulsFormats

open Bytes Fallible

/-- What decides how the headers are stored. -/
structure Binder4Mode where
  format : UInt8
  bitBigEndian : Bool
  bigEndian : Bool
  unicode : Bool

/-- Whether the id of a file is stored, in one place or the other. -/
def binder4StoresIds (f : UInt8) : Bool := binderFormatHasIds f || f == binderFormatNames1

/-! ## Where everything stands -/

section Places

variable (f : UInt8)

/-- Where the header of the `i`-th file stands, and where its fields do. -/
def binder4EntryAt (i : Nat) : Nat := 64 + i * binderGetBnd4FileHeaderSize f

def binder4DataOffsetAt (i : Nat) : Nat :=
  binder4EntryAt f i + 16 + (if binderFormatHasCompression f then 8 else 0)

def binder4IdAt (i : Nat) : Nat := binder4DataOffsetAt f i + binderOffsetWidth f

def binder4NameOffsetAt (i : Nat) : Nat := binder4IdAt f i + (if binderFormatHasIds f then 4 else 0)

def binder4Names1IdAt (i : Nat) : Nat := binder4NameOffsetAt f i + (if binderFormatHasNames f then 4 else 0)

theorem binder4EntryAt_zero : binder4EntryAt f 0 = 64 := by rw [binder4EntryAt, Nat.zero_mul]

theorem binder4EntryAt_succ (i : Nat) : binder4EntryAt f (i + 1)
    = binder4Names1IdAt f i + (if f == binderFormatNames1 then 8 else 0) := by
  rw [binder4Names1IdAt, binder4NameOffsetAt, binder4IdAt, binder4DataOffsetAt, binder4EntryAt, binder4EntryAt,
    Nat.succ_mul, binderGetBnd4FileHeaderSize, binderOffsetWidth]
  ring

end Places

/-- The slots of the writer. -/
inductive Binder4Slot where
  | headersEnd
  | hashTableOffset
  | compressedSize
  | uncompressedSize
  | dataOffset
  | nameOffset

def binder4Labels (f : UInt8) : BinaryWriter.Labels Binder4Slot where
  base
    | .headersEnd => "HeadersEnd"
    | .hashTableOffset => "HashTableOffset"
    | .compressedSize => "FileCompressedSize"
    | .uncompressedSize => "FileUncompressedSize"
    | .dataOffset => "FileDataOffset"
    | .nameOffset => "FileNameOffset"
  kind
    | .dataOffset => if binderFormatHasLongOffsets f then .i64 else .u32
    | .nameOffset => .i32
    | _ => .i64
  noDigits := by
    intro a
    cases a <;> decide
  inj := by
    intro a b h
    cases a <;> cases b <;> first | rfl | exact absurd h (by decide)

/-- Where a slot is reserved. -/
def binder4Addr (f : UInt8) : Binder4Slot → Option Nat → Nat
  | .headersEnd, _ => 40
  | .hashTableOffset, _ => 56
  | .compressedSize, i => binder4EntryAt f (i.getD 0) + 8
  | .uncompressedSize, i => binder4EntryAt f (i.getD 0) + 16
  | .dataOffset, i => binder4DataOffsetAt f (i.getD 0)
  | .nameOffset, i => binder4NameOffsetAt f (i.getD 0)

def binder4Slots (f : UInt8) : BinaryWriter.FileSlots (Binder4Slot × Option Nat) :=
  (binder4Labels f).slots (binder4Addr f) True

theorem binder4Slots_headersEnd (f : UInt8) :
    (binder4Slots f).key (.headersEnd, none) = (cstr "HeadersEnd", .i64) :=
  (binder4Labels f).key_none _ _ _

theorem binder4Slots_hashTableOffset (f : UInt8) :
    (binder4Slots f).key (.hashTableOffset, none) = (cstr "HashTableOffset", .i64) :=
  (binder4Labels f).key_none _ _ _

theorem binder4Slots_dataOffset (f : UInt8) (i : Nat) :
    IsOffsetSlot (binder4Slots f) f i (.dataOffset, some i) := rfl

/-- The slot of the hash table is not one of those whose place is known. -/
theorem binder4Slots_hashesOffset (f : UInt8) (s : Binder4Slot × Option Nat) :
    (binder4Slots f).key s ≠ (cstr "HashesOffset", .i64) := by
  obtain ⟨a, i⟩ := s
  intro h
  have hname : cstr ((binder4Labels f).base a) ++ i.elim [] decimal
      = cstr "HashesOffset" ++ (none : Option Nat).elim [] decimal := by
    rw [Option.elim_none, List.append_nil]
    exact congrArg Prod.fst h
  obtain ⟨hbase, -⟩ := BinaryWriter.numbered_inj ((binder4Labels f).noDigits a) (by decide) hname
  simp only [binder4Labels] at hbase
  cases a <;> exact absurd hbase (by decide)

/-! ## What the file holds -/

/-- What the header of a file holds from the start; the rest is filled in. -/
structure Binder4EntryAt (M : Binder4Mode) (B : List UInt8) (i : Nat) (file : BinderFile) : Prop where
  flags : Holds B (binder4EntryAt M.format i) [binderFileFlagsRaw M.bitBigEndian file.flags]
  zero1 : Holds B (binder4EntryAt M.format i + 1) [0]
  zero2 : Holds B (binder4EntryAt M.format i + 2) [0]
  zero3 : Holds B (binder4EntryAt M.format i + 3) [0]
  ones : Holds B (binder4EntryAt M.format i + 4) (wordBytes M.bigEndian 4 (-1 : Int32).toUInt32.toNat)
  id : binderFormatHasIds M.format = true →
    Holds B (binder4IdAt M.format i) (wordBytes M.bigEndian 4 file.id.toUInt32.toNat)
  names1Id : (M.format == binderFormatNames1) = true →
    Holds B (binder4Names1IdAt M.format i) (wordBytes M.bigEndian 4 file.id.toUInt32.toNat) ∧
      Holds B (binder4Names1IdAt M.format i + 4) (wordBytes M.bigEndian 4 (0 : Int32).toUInt32.toNat)

/-- What the header of a file says of its data, of which `size` bytes are stored at `p`. -/
structure Binder4PlaceAt (M : Binder4Mode) (B : List UInt8) (i : Nat) (file : BinderFile) (p size : Nat) :
    Prop where
  compressedSize : Holds B (binder4EntryAt M.format i + 8)
    (wordBytes M.bigEndian 8 (Int64.ofNat size).toUInt64.toNat)
  uncompressedSize : binderFormatHasCompression M.format = true →
    Holds B (binder4EntryAt M.format i + 16)
      (wordBytes M.bigEndian 8 (Int64.ofNat file.data.length).toUInt64.toNat)
  offset : Holds B (binder4DataOffsetAt M.format i) (binderOffsetBytes M.bigEndian M.format p)

/-- The hash table, as far as the reader looks. -/
structure HashTableAt (B : List UInt8) (p : Nat) : Prop where
  groupCount : p + 12 ≤ B.length
  mark1 : Holds B (p + 12) [0x10]
  mark2 : Holds B (p + 13) [0x08]
  mark3 : Holds B (p + 14) [0x08]
  mark4 : Holds B (p + 15) [0x00]

/-- The header of the file itself, but for the word before the flag of the texts. -/
structure Binder4HeaderAt (os : Win32) (M : Binder4Mode) (magic version : List UInt8) (unk04 unk05 : Bool)
    (extended : UInt8) (fileCount : Nat) (B : List UInt8) : Prop where
  magic : Holds B 0 magic
  unk04 : Holds B 4 [if unk04 then 1 else 0]
  unk05 : Holds B 5 [if unk05 then 1 else 0]
  zero6 : Holds B 6 [0]
  zero7 : Holds B 7 [0]
  zero8 : Holds B 8 [0]
  bigEndian : Holds B 9 [if M.bigEndian then 1 else 0]
  bitBigEndian : Holds B 10 [if !M.bitBigEndian then 1 else 0]
  zero11 : Holds B 11 [0]
  count : Holds B 12 (wordBytes M.bigEndian 4 (Int32.ofNat fileCount).toUInt32.toNat)
  headerSize : Holds B 16 (wordBytes M.bigEndian 8 (0x40 : Int64).toUInt64.toNat)
  version : Holds B 24 (fixedText os 8 version)
  entrySize : Holds B 32
    (wordBytes M.bigEndian 8 (Int64.ofNat (binderGetBnd4FileHeaderSize M.format)).toUInt64.toNat)
  unicode : Holds B 48 [if M.unicode then 1 else 0]
  format : Holds B 49 [binderFormatRaw M.bitBigEndian M.format]
  extended : Holds B 50 [extended]
  zero51 : Holds B 51 [0]
  zero52 : Holds B 52 (wordBytes M.bigEndian 4 (0 : Int32).toUInt32.toNat)

/-- What the file holds between its own header and the data: the headers, the names and the hash table. -/
structure Binder4Image (os : Win32) (M : Binder4Mode) (extended : UInt8) (files : List BinderFile)
    (B : List UInt8) : Prop where
  headers : binder4EntryAt M.format files.length ≤ B.length
  entries : ∀ i file, files[i]? = some file → Binder4EntryAt M B i file
  names : ∀ i file, files[i]? = some file → binderFormatHasNames M.format = true →
    ∃ p, BinderNameAt os M.unicode M.bigEndian B (binder4NameOffsetAt M.format i) file p
  hashTable : ∃ p, p ≤ B.length ∧ Holds B 56 (wordBytes M.bigEndian 8 (Int64.ofNat p).toUInt64.toNat) ∧
    if extended = 4 then HashTableAt B p else p = 0

/-! ## Writing -/

section Writing

open BinaryWriter

variable {os : Win32} {M : Binder4Mode} {pos : Nat} {file : BinderFile}

theorem puts_binder4WriteFileHeader (i : Nat) (file : BinderFile) :
    Puts (binder4Slots M.format) (binder4WriteFileHeader M.format M.bitBigEndian file.header i)
      ⟨binder4EntryAt M.format i, M.bigEndian, false⟩
      (fun _ st => st = ⟨binder4EntryAt M.format (i + 1), M.bigEndian, false⟩) fun _ _ B =>
        Binder4EntryAt M B i file := by
  unfold binder4WriteFileHeader binderWriteFileFlags
  refine Puts.droppedU8 trivial (Puts.u8 (Puts.u8 (Puts.u8 (Puts.i32 (Puts.reserveI64
    (.compressedSize, some i) rfl rfl ?_)))))
  refine Puts.given (n := 8) (F := fun _ => True) (fun _ => Puts.last (Puts.reserveI64
    (.uncompressedSize, some i) rfl rfl (Puts.done rfl fun _ => trivial))) ?_
  refine puts_binderReserveDataOffset _ (binder4Slots_dataOffset _ i) rfl ?_
  refine Puts.given (n := 4) (fun _ => Puts.last (Puts.i32 (Puts.done rfl fun _ h => h))) ?_
  refine Puts.given (n := 4) (F := fun _ => True) (fun _ => Puts.last (Puts.reserveI32 (.nameOffset, some i) rfl
    rfl (Puts.done rfl fun _ => trivial))) ?_
  refine Puts.last (Puts.given (n := 8) (F := fun B =>
    Holds B (binder4Names1IdAt M.format i) (wordBytes M.bigEndian 4 file.id.toUInt32.toNat) ∧
      Holds B (binder4Names1IdAt M.format i + 4) (wordBytes M.bigEndian 4 (0 : Int32).toUInt32.toNat))
    (fun _ => Puts.i32 (Puts.last (Puts.i32 (Puts.done rfl fun _ hzero hid => ⟨hid, hzero⟩)))) ?_)
  rw [binder4EntryAt_succ]
  exact Puts.done rfl fun B hnames1 _ hid _ hones hz3 hz2 hz1 hflags =>
    { flags := hflags, zero1 := hz1, zero2 := hz2, zero3 := hz3, ones := hones, id := hid
      names1Id := hnames1 }

theorem puts_binder4FillFileData (i p size : Nat) (file : BinderFile) :
    Puts (binder4Slots M.format) (binder4FillFileData M.format file.header i (p, size))
      ⟨pos, M.bigEndian, false⟩ (fun _ st => st = ⟨pos, M.bigEndian, false⟩) fun _ _ B =>
        Binder4PlaceAt M B i file p size := by
  refine Puts.fillI64 (.compressedSize, some i) rfl ?_
  refine Puts.given (n := 0) (fun _ => Puts.last (Puts.fillI64 (.uncompressedSize, some i) rfl
    (Puts.done rfl fun _ h => h))) ?_
  refine Puts.last (puts_binderFillDataOffset _ (binder4Slots_dataOffset _ i) (Puts.done ?_
    fun B hoffset huncompressed hsize => ⟨hsize, huncompressed, hoffset⟩))
  simp

/-- A loop that writes something. -/
theorem puts_forEach {σ γ : Type} {S : FileSlots σ} {f : Nat → γ → WriteM Unit} {be : Bool}
    (hf : ∀ i a pos, Puts S (f i a) ⟨pos, be, false⟩ (fun _ st => ∃ p, st = ⟨p, be, false⟩) fun _ _ _ => True)
    (l : List γ) : Puts S (forIndexed f 0 l) ⟨pos, be, false⟩ (fun _ st => ∃ p, st = ⟨p, be, false⟩)
      fun _ _ _ => True := by
  have hloop := puts_forIndexed (S := S) (f := f) (fun _ st => ∃ p, st = ⟨p, be, false⟩)
    (F := fun _ _ _ => True) l
    (by
      rintro i a _ - ⟨p, rfl⟩
      exact hf i a p) ⟨pos, rfl⟩
  exact hloop.mono fun _ _ _ _ _ => trivial

theorem puts_binderAllocPair {σ α : Type} {S : FileSlots σ} {be long : Bool} {n : Nat} {g : Unit → WriteM α}
    {Q : α → Stand → Prop} {G : α → Stand → List UInt8 → Prop} (hg : Puts S (g ()) ⟨pos, be, long⟩ Q G) :
    Puts S (binderAllocPair n >>= g) ⟨pos, be, long⟩ Q G := by
  unfold binderAllocPair
  rw [bind_assoc]
  refine Puts.asked fun e => ?_
  rw [bind_assoc]
  exact Puts.asked fun e' => Puts.check fun _ => hg

theorem puts_binderHashTableWrite (f : UInt8) {be : Bool} (qs : Qsort) (files : List BinderFile) :
    Puts (binder4Slots f) (binderHashTableWrite qs files) ⟨pos, be, false⟩
      (fun _ st => ∃ p, st = ⟨p, be, false⟩) fun _ _ B => HashTableAt B pos := by
  refine Puts.check fun _ => puts_binderAllocPair (puts_binderAllocPair ?_)
  refine Puts.reserveOther (k := .i64) (binder4Slots_hashesOffset f) (Puts.u32 (Puts.u8 (Puts.u8 (Puts.u8
    (Puts.u8 ?_)))))
  have hgroup : ∀ i group p, Puts (binder4Slots f) (writeHashGroup i group) ⟨p, be, false⟩
      (fun _ st => ∃ p, st = ⟨p, be, false⟩) fun _ _ _ => True := fun i group p =>
    Puts.i32 (Puts.last (Puts.i32 (Puts.done ⟨_, rfl⟩ fun _ _ _ => trivial)))
  have hhash : ∀ i h p, Puts (binder4Slots f) (writePathHash i h) ⟨p, be, false⟩
      (fun _ st => ∃ p, st = ⟨p, be, false⟩) fun _ _ _ => True := fun i h p =>
    Puts.u32 (Puts.last (Puts.i32 (Puts.done ⟨_, rfl⟩ fun _ _ _ => trivial)))
  refine (puts_forEach hgroup _).seq fun _ st hst => ?_
  obtain ⟨p, rfl⟩ := hst
  refine Puts.position (Puts.fillOther (k := .i64) ?_)
  refine (puts_forEach hhash _).mono fun _ _ _ B _ _ h4 h3 h2 h1 hcount => ?_
  have hle := hcount.le
  rw [length_wordBytes] at hle
  exact { groupCount := hle, mark1 := h1, mark2 := h2, mark3 := h3, mark4 := h4 }

theorem puts_binder4WriteHashTable (qs : Qsort) (extended : UInt8) (files : List BinderFile) :
    Puts (binder4Slots M.format) (binder4WriteHashTable qs extended files) ⟨pos, M.bigEndian, false⟩
      (fun _ st => ∃ p, st = ⟨p, M.bigEndian, false⟩) fun _ _ B =>
        ∃ p, p ≤ B.length ∧ Holds B 56 (wordBytes M.bigEndian 8 (Int64.ofNat p).toUInt64.toNat) ∧
          if extended = 4 then HashTableAt B p else p = 0 := by
  refine Puts.ite (fun hext => ?_) fun hext => ?_
  · refine Puts.pad (by decide) (Puts.position (Puts.fillI64 _ (binder4Slots_hashTableOffset _) ?_))
    refine (puts_binderHashTableWrite M.format qs files).mono fun _ _ _ B htable hoffset => ?_
    refine ⟨_, le_trans (Nat.le_add_right _ 12) htable.groupCount, hoffset, ?_⟩
    rwa [if_pos hext]
  · refine Puts.last (Puts.fillI64 _ (binder4Slots_hashTableOffset _) (Puts.done ⟨_, rfl⟩ fun B hoffset => ?_))
    exact ⟨0, Nat.zero_le _, hoffset, by rw [if_neg hext]⟩

/-- What the texts of an archive need. -/
def Binder4NamesFit (os : Win32) (M : Binder4Mode) (files : List BinderFile) : Prop :=
  binderFormatHasNames M.format = true → ∀ file ∈ files,
    if M.unicode then os.Fits16 (file.nameUtf8.getD []) else os.Fits .shiftJis (file.nameUtf8.getD [])

/-- The headers, the names and the hash table. -/
theorem puts_binder4Headers (qs : Qsort) (extended : UInt8) {files : List BinderFile}
    (hfit : Binder4NamesFit os M files) :
    Puts (binder4Slots M.format) (do
      forIndexed (fun i file => binder4WriteFileHeader M.format M.bitBigEndian file.header i) 0 files
      forIndexed (fun i file => binder4WriteFileName os M.format M.unicode file.header i) 0 files
      binder4WriteHashTable qs extended files) ⟨64, M.bigEndian, false⟩
      (fun _ st => ∃ p, st = ⟨p, M.bigEndian, false⟩) fun _ _ B => Binder4Image os M extended files B := by
  have hheaders := puts_forIndexed (S := binder4Slots M.format)
    (f := fun i file => binder4WriteFileHeader M.format M.bitBigEndian file.header i)
    (fun i st => st = ⟨binder4EntryAt M.format i, M.bigEndian, false⟩)
    (F := fun i file B => Binder4EntryAt M B i file) files
    (by
      rintro i file _ - rfl
      exact puts_binder4WriteFileHeader i file) (by rw [binder4EntryAt_zero])
  refine hheaders.seq fun _ st hst => ?_
  subst hst
  have hnames := puts_forIndexed (S := binder4Slots M.format)
    (f := fun i file => binder4WriteFileName os M.format M.unicode file.header i)
    (fun _ st => ∃ p, st = ⟨p, M.bigEndian, false⟩)
    (F := fun i file B => binderFormatHasNames M.format = true →
      ∃ p, BinderNameAt os M.unicode M.bigEndian B (binder4NameOffsetAt M.format i) file p) files
    (by
      rintro i file _ hfile ⟨pos, rfl⟩
      refine (puts_binder4WriteFileName M.unicode (.nameOffset, some i) rfl fun hnames =>
        hfit hnames file (List.mem_of_getElem? hfile)).conseq fun _ st hst => ?_
      obtain ⟨p, -, rfl⟩ := hst
      exact ⟨⟨p, rfl⟩, fun _ h => h⟩)
    ⟨binder4EntryAt M.format files.length, rfl⟩
  refine Puts.here (hnames.seq fun _ st hst => ?_)
  obtain ⟨p, rfl⟩ := hst
  exact (puts_binder4WriteHashTable qs extended files).mono
    fun _ _ _ B htable hnames hheaders hentries =>
      { headers := hheaders, entries := hentries, names := hnames, hashTable := htable }

/-- The same before what follows. -/
theorem puts_binder4Headers_bind (qs : Qsort) {extended : UInt8} {files : List BinderFile} {g : WriteM Unit}
    {Q : Unit → Stand → Prop} {G : Unit → Stand → List UInt8 → Prop} (hfit : Binder4NamesFit os M files)
    (hg : ∀ p, Puts (binder4Slots M.format) g ⟨p, M.bigEndian, false⟩ Q
      fun u st B => Binder4Image os M extended files B → G u st B) :
    Puts (binder4Slots M.format) (do
      forIndexed (fun i file => binder4WriteFileHeader M.format M.bitBigEndian file.header i) 0 files
      forIndexed (fun i file => binder4WriteFileName os M.format M.unicode file.header i) 0 files
      binder4WriteHashTable qs extended files
      g) ⟨64, M.bigEndian, false⟩ Q G := by
  have h := (puts_binder4Headers qs extended hfit).seq (f := fun _ => g) (Q := Q) (G := G) fun _ st hst => by
    obtain ⟨p, rfl⟩ := hst
    exact hg p
  simp only [bind_assoc] at h
  exact h

end Writing

/-! ## Reading -/

section Reading

open BinaryReader

variable {os : Win32} {codecs : Codecs} {M : Binder4Mode} {extended : UInt8} {files : List BinderFile}
  {B : List UInt8} {flex : Bool}

/-- The header of a file, as the reader has it, for data of `size` bytes at `p`. -/
def binder4HeaderReadBack (f : UInt8) (file : BinderFile) (p size : Nat) : BinderFileHeader :=
  { flags := file.flags
    id := if binder4StoresIds f then file.id else -1
    nameUtf8 := if binderFormatHasNames f then some (file.nameUtf8.getD []) else none
    compressedSize := size
    uncompressedSize :=
      (if binderFormatHasCompression f then Int64.ofNat file.data.length else 0).toUInt64.toNat
    dataOffset := p }

theorem reads_binder4ReadName {customAllocator unicode be : Bool} {addr p : Nat} {file : BinderFile}
    (hfit : if unicode then os.Fits16 (file.nameUtf8.getD []) else os.Fits .shiftJis (file.nameUtf8.getD []))
    (hname : BinderNameAt os unicode be B addr file p) (hB : B.length ≤ INT32_MAX) :
    Reads (binder4ReadName os customAllocator unicode) ⟨B, addr, be, false, [], flex⟩
      (some (file.nameUtf8.getD [])) ⟨B, addr + 4, be, false, [], flex⟩ := by
  have hfits := textFits_of_holds unicode hfit hname.name hB
  have hle := hname.offset.le
  have hp := hname.name.le
  rw [length_wordBytes] at hle
  refine Reads.u32 hname.offset ?_
  rw [int32_toUInt32_ofNat (by omega)]
  cases unicode with
  | false => exact (reads_getShiftJis hfits hname.name hle).bind (reads_binderCopyName _ _ _)
  | true => exact (reads_getUtf16 hfits hname.name hle).bind (reads_binderCopyName _ _ _)

theorem reads_binder4ReadFileHeader {customAllocator : Bool} {i p size : Nat} {file : BinderFile}
    (himage : Binder4Image os M extended files B) (hfit : Binder4NamesFit os M files)
    (hB : B.length ≤ INT32_MAX) (hfile : files[i]? = some file) (hp : p ≤ INT32_MAX) (hsize : size ≤ INT32_MAX)
    (hplace : Binder4PlaceAt M B i file p size) :
    Reads (binder4ReadFileHeader os customAllocator M.format M.bitBigEndian M.unicode)
      ⟨B, binder4EntryAt M.format i, M.bigEndian, false, [], flex⟩
      (binder4HeaderReadBack M.format file p size)
      ⟨B, binder4EntryAt M.format (i + 1), M.bigEndian, false, [], flex⟩ := by
  have hentry := himage.entries i file hfile
  unfold binder4ReadFileHeader
  refine (reads_binderReadFileFlags hentry.flags).bind (Reads.assertU8 hentry.zero1 (by decide) (Reads.assertU8
    hentry.zero2 (by decide) (Reads.assertU8 hentry.zero3 (by decide) (Reads.assertI32 hentry.ones (by decide)
    (Reads.i64 hplace.compressedSize ?_)))))
  refine Reads.given (n := 8)
    (v := if binderFormatHasCompression M.format then Int64.ofNat file.data.length else 0)
    (fun h => ?_) (fun h => by simp [h]) ?_
  · rw [if_pos h]
    exact Reads.last (Reads.i64 (hplace.uncompressedSize h) (Reads.pure _ _))
  refine (reads_binderReadDataOffset hp hplace.offset).bind ?_
  refine Reads.given (v := if binderFormatHasIds M.format then file.id else -1) (n := 4)
    (fun h => ?_) (fun h => by simp [h]) ?_
  · rw [if_pos h]
    exact Reads.last (Reads.i32 (hentry.id h) (Reads.pure _ _))
  refine Reads.given (n := 4)
    (v := if binderFormatHasNames M.format then some (file.nameUtf8.getD []) else none)
    (fun h => ?_) (fun h => by simp [h]) ?_
  · obtain ⟨q, hname⟩ := himage.names i file hfile h
    rw [if_pos h]
    exact reads_binder4ReadName (hfit h file (List.mem_of_getElem? hfile)) hname hB
  refine Reads.given (n := 8) (v := if binder4StoresIds M.format then file.id else -1)
    (fun h => ?_) (fun h => by simp [binder4StoresIds, h]) ?_
  · -- the id that stands after the name is the one that counts
    obtain ⟨hid, hzero⟩ := hentry.names1Id h
    have hids : binder4StoresIds M.format = true := by simp [binder4StoresIds, h]
    rw [if_pos hids]
    exact Reads.i32 hid (Reads.assertI32 hzero (by decide) (Reads.pure _ _))
  rw [binder4EntryAt_succ, int64_toUInt64_ofNat hsize]
  exact Reads.pure _ _

/-- The headers, each with the place and the size of its data. -/
def binder4HeadersReadBack (f : UInt8) (files : List BinderFile) (places : Nat → Nat × Nat) :
    List BinderFileHeader :=
  files.mapIdx fun i file => binder4HeaderReadBack f file (places i).1 (places i).2

theorem length_binder4HeadersReadBack (f : UInt8) (files : List BinderFile) (places : Nat → Nat × Nat) :
    (binder4HeadersReadBack f files places).length = files.length := List.length_mapIdx

/-- There are as many files as their headers have room for. -/
theorem Binder4Image.fileCount_le (himage : Binder4Image os M extended files B) (hB : B.length ≤ INT32_MAX) :
    files.length ≤ INT32_MAX := by
  have hle := himage.headers
  have hentry : 1 ≤ binderGetBnd4FileHeaderSize M.format := by
    unfold binderGetBnd4FileHeaderSize
    omega
  have hmul := Nat.mul_le_mul_left files.length hentry
  unfold binder4EntryAt at hle
  omega

theorem reads_binder4FileHeaders (flex customAllocator : Bool) (places : Nat → Nat × Nat)
    (himage : Binder4Image os M extended files B) (hfit : Binder4NamesFit os M files)
    (hB : B.length ≤ INT32_MAX)
    (hplaces : ∀ i file, files[i]? = some file → (places i).1 ≤ INT32_MAX ∧ (places i).2 ≤ INT32_MAX ∧
      Binder4PlaceAt M B i file (places i).1 (places i).2) :
    Reads (binderReadFileHeaders (binder4ReadFileHeader os customAllocator M.format M.bitBigEndian M.unicode)
        (Int32.ofNat files.length)) ⟨B, 64, M.bigEndian, false, [], flex⟩
      (binder4HeadersReadBack M.format files places)
      ⟨B, binder4EntryAt M.format files.length, M.bigEndian, false, [], flex⟩ := by
  have hlen := length_binder4HeadersReadBack M.format files places
  have hheaders := reads_binderReadFileHeaders
    (binder4ReadFileHeader os customAllocator M.format M.bitBigEndian M.unicode)
    (fun i => ⟨B, binder4EntryAt M.format i, M.bigEndian, false, [], flex⟩)
    (binder4HeadersReadBack M.format files places)
    (by rw [hlen]; exact himage.fileCount_le hB)
    (by
      intro i h hh
      rw [binder4HeadersReadBack, List.getElem?_mapIdx, Option.map_eq_some_iff] at hh
      obtain ⟨file, hfile, rfl⟩ := hh
      obtain ⟨hp, hsize, hplace⟩ := hplaces i file hfile
      exact reads_binder4ReadFileHeader himage hfit hB hfile hp hsize hplace)
  rwa [hlen, binder4EntryAt_zero] at hheaders

/-- The headers lead to the data, which may be in another file. -/
theorem binder4HeadersReadBack_lead {f : UInt8} {D : List UInt8} {places : Nat → Nat × Nat}
    (hplaces : ∀ i file, files[i]? = some file → (places i).1 ≤ INT32_MAX ∧
      ∃ z, BinderStores codecs file z ∧ (places i).2 = z.length ∧ Holds D (places i).1 z) :
    List.Forall₂ (BinderHeaderLeads codecs D (binder4StoresIds f) (binderFormatHasNames f)) files
      (binder4HeadersReadBack f files places) := by
  refine List.forall₂_iff_get.2 ⟨(length_binder4HeadersReadBack _ _ _).symm, fun i hi hi' => ?_⟩
  obtain ⟨hp, z, hstores, hsize, hdata⟩ := hplaces i _ (List.getElem?_eq_getElem hi)
  have hheader : (binder4HeadersReadBack f files places).get ⟨i, hi'⟩
      = binder4HeaderReadBack f files[i] (places i).1 (places i).2 := by
    simp [binder4HeadersReadBack]
  rw [hheader]
  exact
    { flags := rfl, id := rfl, name := rfl
      stored := ⟨z, (places i).1, hstores, hsize, int64_toInt_ofNat hp, hdata⟩ }

/-- The hash table is only looked at. -/
theorem reads_binderHashTableAssert {p : Nat} {be : Bool} {steps : List Nat} (htable : HashTableAt B p) :
    Reads binderHashTableAssert ⟨B, p, be, false, steps, flex⟩ () ⟨B, p + 16, be, false, steps, flex⟩ := by
  have hle := htable.groupCount
  have hhashesLe : p + 8 ≤ B.length := by omega
  have hgroupsLe : p + 8 + 4 ≤ B.length := by omega
  obtain ⟨hashes, hhashes⟩ := exists_reads_i64 be steps flex hhashesLe
  obtain ⟨groups, hgroups⟩ := exists_reads_i32 be steps flex hgroupsLe
  exact hhashes.bind (hgroups.bind (Reads.assertU8 htable.mark1 (by decide) (Reads.assertU8 htable.mark2
    (by decide) (Reads.assertU8 htable.mark3 (by decide) (Reads.assertU8 htable.mark4 (by decide)
    (Reads.pure _ _))))))

theorem reads_binder4ReadHashTable {p pos : Nat} {be : Bool} (hp : p ≤ B.length) (hB : B.length ≤ INT32_MAX)
    (hpos : pos ≤ B.length) (htable : if extended = 4 then HashTableAt B p else p = 0) :
    Reads (binder4ReadHashTable extended (Int64.ofNat p)) ⟨B, pos, be, false, [], flex⟩ ()
      ⟨B, pos, be, false, [], flex⟩ := by
  refine Reads.ite (fun hext => ?_) fun hext => ?_
  · rw [if_pos hext] at htable
    rw [int64_toInt_ofNat (hp.trans hB)]
    refine (reads_stepIn hp).bind ((reads_binderHashTableAssert htable).attempt.bind
      ((reads_stepOut rfl hpos).attempt.bind ?_))
    exact (Reads.pure () _).bind (Reads.pure () _)
  · rw [if_neg hext] at htable
    subst htable
    exact Reads.last (Reads.check rfl (Reads.pure _ _))

end Reading

end SoulsFormats
