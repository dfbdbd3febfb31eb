import SoulsFormats.Archive.Binder4Image
import SoulsFormats.Archive.Bxf4

set_option autoImplicit false

/-! # BXF4 archives are read back

The slots are all in the file of the headers, the data is in the other. The data of a file starts where that of
the file before it ends, or after some padding, so that no two ranges overlap. -/

namespace SoulsFormats

open Bytes Fallible

/-- What decides how the headers of an archive are stored. -/
def Bxf4.mode (b : Bxf4) : Binder4Mode := ⟨b.format, b.bitBigEndian, b.bigEndian, b.unicode⟩

/-- The texts that are stored can be stored, the version in eight bytes of Shift-JIS. -/
structure Bxf4.Fits (os : Win32) (b : Bxf4) : Prop where
  version : os.Fits .shiftJis (b.version.getD [])
  versionLength : (os.encoded .shiftJis (b.version.getD [])).length ≤ 8
  names : Binder4NamesFit os b.mode b.files

/-- The headers lead to ranges of a file of `size` bytes, one after another. -/
structure BinderRangesInOrder (headers : List BinderFileHeader) (size : Nat) : Prop where
  apart : headers.Pairwise fun h h' => h.dataOffset + h.compressedSize ≤ h'.dataOffset
  inside : ∀ h ∈ headers, h.dataOffset + h.compressedSize ≤ size

/-! ## What the files hold -/

/-- The header of the file of the data. -/
structure BdfHeaderAt (os : Win32) (b : Bxf4) (D : List UInt8) : Prop where
  magic : Holds D 0 (cstr "BDF4")
  unk04 : Holds D 4 [if b.unk04 then 1 else 0]
  unk05 : Holds D 5 [if b.unk05 then 1 else 0]
  zero6 : Holds D 6 [0]
  zero7 : Holds D 7 [0]
  zero8 : Holds D 8 [0]
  bigEndian : Holds D 9 [if b.bigEndian then 1 else 0]
  bitBigEndian : Holds D 10 [if !b.bitBigEndian then 1 else 0]
  zero11 : Holds D 11 [0]
  zero12 : Holds D 12 (wordBytes b.bigEndian 4 (0 : Int32).toUInt32.toNat)
  headerSize : Holds D 16 (wordBytes b.bigEndian 8 (0x30 : Int64).toUInt64.toNat)
  version : Holds D 24 (fixedText os 8 (b.version.getD []))
  zero32 : Holds D 32 (wordBytes b.bigEndian 8 (0 : Int64).toUInt64.toNat)
  zero40 : Holds D 40 (wordBytes b.bigEndian 8 (0 : Int64).toUInt64.toNat)

/-- The data of the files from the `i`-th on, which starts at `pos` or after it: `D` holds it at the places that
    `B` names. -/
inductive Bxf4DataAt (codecs : Codecs) (M : Binder4Mode) (B D : List UInt8) :
    Nat → Nat → List BinderFile → List (Nat × Nat) → Prop
  | nil (i pos : Nat) : Bxf4DataAt codecs M B D i pos [] []
  | cons {i pos p : Nat} {file : BinderFile} {files : List BinderFile} {z : List UInt8}
      {places : List (Nat × Nat)} (hpos : pos ≤ p) (hstores : BinderStores codecs file z)
      (hplace : Binder4PlaceAt M B i file p z.length) (hdata : Holds D p z)
      (hrest : Bxf4DataAt codecs M B D (i + 1) (p + z.length) files places) :
      Bxf4DataAt codecs M B D i pos (file :: files) ((p, z.length) :: places)

section

variable {codecs : Codecs} {M : Binder4Mode} {B D : List UInt8} {i pos : Nat} {files : List BinderFile}
  {places : List (Nat × Nat)}

theorem Bxf4DataAt.length_eq (h : Bxf4DataAt codecs M B D i pos files places) :
    places.length = files.length := by
  induction h with
  | nil => rfl
  | cons _ _ _ _ _ ih => simp [ih]

theorem Bxf4DataAt.get (h : Bxf4DataAt codecs M B D i pos files places) {k : Nat} {file : BinderFile}
    (hk : files[k]? = some file) :
    ∃ p z, places[k]? = some (p, z.length) ∧ BinderStores codecs file z ∧
      Binder4PlaceAt M B (i + k) file p z.length ∧ Holds D p z := by
  induction h generalizing k with
  | nil => simp at hk
  | @cons i pos p file' files z places _ hstores hplace hdata _ ih =>
      cases k with
      | zero =>
          cases hk
          exact ⟨p, z, rfl, hstores, hplace, hdata⟩
      | succ k =>
          obtain ⟨q, y, hq, hy⟩ := ih (by simpa using hk)
          rw [Nat.add_right_comm, Nat.add_assoc] at hy
          exact ⟨q, y, by simpa using hq, hy⟩

theorem Bxf4DataAt.start_le (h : Bxf4DataAt codecs M B D i pos files places) :
    ∀ place ∈ places, pos ≤ place.1 := by
  induction h with
  | nil => simp
  | cons hpos _ _ _ _ ih =>
      intro place hplace
      rcases List.mem_cons.1 hplace with rfl | hplace
      · exact hpos
      · have hle := ih place hplace
        omega

/-- No range starts before the one before it has ended. -/
theorem Bxf4DataAt.apart (h : Bxf4DataAt codecs M B D i pos files places) :
    places.Pairwise fun a b => a.1 + a.2 ≤ b.1 := by
  induction h with
  | nil => exact .nil
  | cons _ _ _ _ hrest ih => exact .cons hrest.start_le ih

theorem Bxf4DataAt.inside (h : Bxf4DataAt codecs M B D i pos files places) :
    ∀ place ∈ places, place.1 + place.2 ≤ D.length := by
  induction h with
  | nil => simp
  | cons _ _ _ hdata _ ih =>
      intro place hplace
      rcases List.mem_cons.1 hplace with rfl | hplace
      · exact hdata.le
      · exact ih place hplace

end

/-- What the two files of an archive hold. -/
structure Bxf4Image (os : Win32) (codecs : Codecs) (b : Bxf4) (B D : List UInt8) : Prop where
  bdf : BdfHeaderAt os b D
  bhf : Binder4HeaderAt os b.mode (cstr "BHF4") (b.version.getD []) b.unk04 b.unk05 b.extended b.files.length B
  zero40 : Holds B 40 (wordBytes b.bigEndian 8 (0 : Int64).toUInt64.toNat)
  headers : Binder4Image os b.mode b.extended b.files B
  data : ∃ pos places, Bxf4DataAt codecs b.mode B D 0 pos b.files places

/-! ## Writing -/

section Writing

open BinaryWriter WriterPair

variable {os : Win32} {codecs : Codecs} {b : Bxf4}

theorem puts_bxf4WriteBdfHeader (hos : os.AsciiCompatible) (hfit : b.Fits os) :
    Puts (binder4Slots b.format) (bxf4WriteBdfHeader os b) ⟨0, false, false⟩
      (fun _ st => st = ⟨48, b.bigEndian, false⟩) fun _ _ D => BdfHeaderAt os b D := by
  refine Puts.setBigEndian (Puts.ascii hos (by decide) (Puts.bool (Puts.bool (Puts.u8 (Puts.u8 (Puts.u8
    (Puts.bool (Puts.bool (Puts.u8 (Puts.i32 (Puts.i64 (Puts.fixStr (by decide) hfit.version.noNul
    hfit.versionLength (Puts.i64 (Puts.last (Puts.i64 (Puts.done rfl ?_))))))))))))))))
  exact fun D hz40 hz32 hversion hheaderSize hz12 hz11 hbit hbig hz8 hz7 hz6 hunk05 hunk04 hmagic =>
    { magic := hmagic, unk04 := hunk04, unk05 := hunk05, zero6 := hz6, zero7 := hz7, zero8 := hz8
      bigEndian := hbig, bitBigEndian := hbit, zero11 := hz11, zero12 := hz12, headerSize := hheaderSize
      version := hversion, zero32 := hz32, zero40 := hz40 }

theorem puts_bxf4WriteBhfHeader (hos : os.AsciiCompatible) (qs : Qsort) (hfit : b.Fits os) :
    Puts (binder4Slots b.format) (bxf4WriteBhfHeader os qs b) ⟨0, false, false⟩
      (fun _ st => ∃ p, st = ⟨p, b.bigEndian, false⟩) fun _ _ B =>
        Binder4HeaderAt os b.mode (cstr "BHF4") (b.version.getD []) b.unk04 b.unk05 b.extended b.files.length B ∧
        Holds B 40 (wordBytes b.bigEndian 8 (0 : Int64).toUInt64.toNat) ∧
        Binder4Image os b.mode b.extended b.files B := by
  refine Puts.setBigEndian (Puts.ascii hos (by decide) (Puts.bool (Puts.bool (Puts.u8 (Puts.u8 (Puts.u8
    (Puts.bool (Puts.bool (Puts.u8 (Puts.i32 (Puts.i64 (Puts.fixStr (by decide) hfit.version.noNul
    hfit.versionLength (Puts.i64 (Puts.i64 (Puts.bool (Puts.dropped trivial (by decide) (Puts.u8 (Puts.u8
    (Puts.i32 (Puts.reserveI64 _ (binder4Slots_hashTableOffset _) rfl ?_))))))))))))))))))))
  refine (puts_binder4Headers (M := b.mode) qs b.extended hfit.names).mono fun _ _ _ B himage hz52 hz51 hextended
    hformat hunicode hz40 hentrySize hversion hheaderSize hcount hz11 hbit hbig hz8 hz7 hz6 hunk05 hunk04
    hmagic => ?_
  exact
    ⟨{ magic := hmagic, unk04 := hunk04, unk05 := hunk05, zero6 := hz6, zero7 := hz7, zero8 := hz8
       bigEndian := hbig, bitBigEndian := hbit, zero11 := hz11, count := hcount, headerSize := hheaderSize
       version := hversion, entrySize := hentrySize, unicode := hunicode, format := hformat
       extended := hextended, zero51 := hz51, zero52 := hz52 }, hz40, himage⟩

/-- The data goes to one file, and what is said of it to the other. -/
theorem puts_bxf4WriteFileData {M : Binder4Mode} (files : List BinderFile) (i pos q : Nat) :
    PutsPair (binder4Slots M.format) (forIndexed (bxf4WriteFileData codecs M.format) i files)
      ⟨q, M.bigEndian, false⟩ ⟨pos, M.bigEndian, false⟩ (fun _ _ _ => True) fun _ B D =>
        ∃ places, Bxf4DataAt codecs M B D i pos files places := by
  induction files generalizing i pos with
  | nil => exact PutsPair.done trivial fun B D => ⟨[], .nil i pos⟩
  | cons file files ih =>
      have hcore : Puts (binder4Slots M.format) (writeFileDataCore codecs file.header file.data)
          ⟨pos, M.bigEndian, false⟩ (fun v st => pos ≤ v.1 ∧ st = ⟨v.1 + v.2, M.bigEndian, false⟩)
          fun v _ D => ∃ z, BinderStores codecs file z ∧ v.2 = z.length ∧ Holds D v.1 z :=
        puts_writeFileDataCore
      have hfill : ∀ p size, Puts (binder4Slots M.format) (binder4FillFileData M.format file.header i (p, size))
          ⟨q, M.bigEndian, false⟩ (fun _ st => st = ⟨q, M.bigEndian, false⟩) fun _ _ B =>
            Binder4PlaceAt M B i file p size :=
        fun p size => puts_binder4FillFileData i p size file
      rw [forIndexed, bxf4WriteFileData, bind_assoc]
      refine (PutsPair.onBdt hcore).seq fun v st td hst => ?_
      obtain ⟨p, size⟩ := v
      obtain ⟨⟨hpos, rfl⟩, rfl⟩ := hst
      refine (PutsPair.onBhd (hfill p size)).seq fun _ st td hst => ?_
      obtain ⟨rfl, rfl⟩ := hst
      refine (ih (i + 1) (p + size)).mono fun _ _ _ _ B D hrest hplace hdata => ?_
      obtain ⟨places, hrest⟩ := hrest
      obtain ⟨-, -, hplace⟩ := hplace
      obtain ⟨-, -, z, hstores, rfl, hdata⟩ := hdata
      exact ⟨_, .cons hpos hstores hplace hdata hrest⟩

/-- **What the two files of an archive hold.** -/
theorem puts_bxf4WriteToWriters (codecs : Codecs) (hos : os.AsciiCompatible) (qs : Qsort) (hfit : b.Fits os) :
    PutsPair (binder4Slots b.format) (bxf4WriteToWriters os codecs qs b) ⟨0, false, false⟩ ⟨0, false, false⟩
      (fun _ _ _ => True) fun _ B D => Bxf4Image os codecs b B D := by
  have halloc : Puts (binder4Slots b.format) (binderAllocHeaders b.files) ⟨0, false, false⟩
      (fun _ st => st = ⟨0, false, false⟩) fun _ _ _ => True :=
    Puts.last (puts_binderAllocHeaders (Puts.done rfl fun _ => trivial))
  refine (PutsPair.onBhd halloc).seq fun _ st td hst => ?_
  obtain ⟨rfl, rfl⟩ := hst
  refine (PutsPair.onBdt (puts_bxf4WriteBdfHeader hos hfit)).seq fun _ st td hst => ?_
  obtain ⟨rfl, rfl⟩ := hst
  refine (PutsPair.onBhd (puts_bxf4WriteBhfHeader hos qs hfit)).seq fun _ st td hst => ?_
  obtain ⟨⟨q, rfl⟩, rfl⟩ := hst
  refine (puts_bxf4WriteFileData (M := b.mode) b.files 0 48 q).mono fun _ _ _ _ B D hdata hbhf hbdf _ => ?_
  obtain ⟨-, -, hbdf⟩ := hbdf
  obtain ⟨-, -, hbhf, hz40, hheaders⟩ := hbhf
  exact { bdf := hbdf, bhf := hbhf, zero40 := hz40, headers := hheaders, data := ⟨48, hdata⟩ }

end Writing

/-! ## Reading -/

section Reading

open BinaryReader

variable {os : Win32} {codecs : Codecs} {b : Bxf4} {B D : List UInt8} {flex : Bool}

theorem reads_bxf4ReadBdfHeader (hbdf : BdfHeaderAt os b D) (hfit : b.Fits os) :
    Reads (bxf4ReadBdfHeader os) ⟨D, 0, false, false, [], flex⟩ () ⟨D, 48, b.bigEndian, false, [], flex⟩ := by
  refine Reads.ascii hbdf.magic (Reads.bool hbdf.unk04 (Reads.bool hbdf.unk05 (Reads.assertU8 hbdf.zero6
    (by decide) (Reads.assertU8 hbdf.zero7 (by decide) (Reads.assertU8 hbdf.zero8 (by decide) (Reads.bool
    hbdf.bigEndian (Reads.setBig (Reads.bool hbdf.bitBigEndian (Reads.assertU8 hbdf.zero11 (by decide)
    (Reads.assertI32 hbdf.zero12 (by decide) (Reads.assertI64 hbdf.headerSize (by decide) (Reads.fixStr
    (by decide) hfit.version hfit.versionLength (by decide) hbdf.version (Reads.assertI64 hbdf.zero32 (by decide)
    (Reads.assertI64 hbdf.zero40 (by decide) ?_))))))))))))))
  exact Reads.pure _ _

theorem reads_bxf4AllocFiles (headers : List BinderFileHeader) (c : Cursor) :
    Reads (bxf4AllocFiles headers) c () c := by
  unfold bxf4AllocFiles Fallible.given
  cases headers.isEmpty with
  | false => exact reads_alloc _ fun _ => Reads.pure _ _
  | true => exact (Reads.pure _ _).bind (Reads.pure _ _)

theorem reads_bxf4ReadBhfHeader (flex customAllocator : Bool) {places : Nat → Nat × Nat}
    (himage : Bxf4Image os codecs b B D) (hfit : b.Fits os) (hB : B.length ≤ INT32_MAX)
    (hformat : BinderFormatKept b.bitBigEndian b.format) (hextended : b.extended ∈ [0, 4])
    (hplaces : ∀ i file, b.files[i]? = some file → (places i).1 ≤ INT32_MAX ∧ (places i).2 ≤ INT32_MAX ∧
      Binder4PlaceAt b.mode B i file (places i).1 (places i).2) :
    Reads (bxf4ReadBhfHeader os customAllocator) ⟨B, 0, false, false, [], flex⟩
      ({ b with version := some (b.version.getD []), files := [] },
        binder4HeadersReadBack b.format b.files places)
      ⟨B, binder4EntryAt b.format b.files.length, b.bigEndian, false, [], flex⟩ := by
  have hheader := himage.bhf
  obtain ⟨p, hp, hoffset, htable⟩ := himage.headers.hashTable
  have hheaders := reads_binder4FileHeaders flex customAllocator places himage.headers hfit.names hB hplaces
  have hstart : 64 ≤ B.length := le_trans (Nat.le_add_right 64 _) himage.headers.headers
  unfold bxf4ReadBhfHeader
  refine Reads.ascii hheader.magic (Reads.bool hheader.unk04 (Reads.bool hheader.unk05 (Reads.assertU8 hheader.zero6
    (by decide) (Reads.assertU8 hheader.zero7 (by decide) (Reads.assertU8 hheader.zero8 (by decide) (Reads.bool
    hheader.bigEndian (Reads.bool hheader.bitBigEndian (Reads.assertU8 hheader.zero11 (by decide) (Reads.setBig
    (Reads.i32 hheader.count (Reads.assertI64 hheader.headerSize (by decide) (Reads.fixStr (by decide)
    hfit.version hfit.versionLength (by decide) hheader.version (Reads.i64 hheader.entrySize (Reads.assertI64
    himage.zero40 (by decide) (Reads.bool hheader.unicode ?_)))))))))))))))
  rw [Bool.not_not]
  refine (reads_binderReadFormat hformat hheader.format).bind (Reads.assertU8 hheader.extended hextended
    (Reads.assertU8 hheader.zero51 (by decide) (Reads.check rfl (Reads.assertI32 hheader.zero52 (by decide)
    (Reads.i64 hoffset ((reads_binder4ReadHashTable hp hB hstart htable).bind (hheaders.bind ?_)))))))
  exact Reads.pure _ _

/-- The places of the data, by the number of the file. -/
theorem Bxf4Image.exists_places (himage : Bxf4Image os codecs b B D) (hD : D.length ≤ INT32_MAX) :
    ∃ places : Nat → Nat × Nat,
      (∀ i file, b.files[i]? = some file → (places i).1 ≤ INT32_MAX ∧ (places i).2 ≤ INT32_MAX ∧
        Binder4PlaceAt b.mode B i file (places i).1 (places i).2 ∧
        ∃ z, BinderStores codecs file z ∧ (places i).2 = z.length ∧ Holds D (places i).1 z) ∧
      BinderRangesInOrder (binder4HeadersReadBack b.format b.files places) D.length := by
  obtain ⟨pos, places, hdata⟩ := himage.data
  refine ⟨fun i => places.getD i default, fun i file hfile => ?_, ?_⟩
  · obtain ⟨p, z, hplace, hstores, hat, hholds⟩ := hdata.get hfile
    have hle := hholds.le
    have hget : places.getD i default = (p, z.length) := by simp [hplace]
    rw [Nat.zero_add] at hat
    simp only [hget]
    exact ⟨by omega, by omega, hat, z, hstores, rfl, hholds⟩
  · have hmap : (binder4HeadersReadBack b.format b.files fun i => places.getD i default).map
        (fun h => (h.dataOffset, h.compressedSize)) = places := by
      refine List.ext_getElem (by simp [binder4HeadersReadBack, hdata.length_eq]) fun i hi hi' => ?_
      simp [binder4HeadersReadBack, binder4HeaderReadBack, List.getD_eq_getElem?_getD, hi']
    have hapart := hdata.apart
    have hinside := hdata.inside
    rw [← hmap] at hapart hinside
    exact ⟨List.pairwise_map.1 hapart, fun h hh => hinside _ (List.mem_map_of_mem hh)⟩

theorem reads_bxf4PopulateFromReaders (flex customAllocator : Bool) (himage : Bxf4Image os codecs b B D)
    (hfit : b.Fits os) (hB : B.length ≤ INT32_MAX) (hD : D.length ≤ INT32_MAX)
    (hformat : BinderFormatKept b.bitBigEndian b.format) (hextended : b.extended ∈ [0, 4])
    (hinv : ∀ file ∈ b.files, binderFileIsCompressed file.flags = true → codecs.InvertsDcx file) :
    ∃ files c' d', ReaderPair.Reads (bxf4PopulateFromReaders os customAllocator codecs)
      ⟨B, 0, false, false, [], flex⟩ ⟨D, 0, false, false, [], flex⟩
      { b with version := some (b.version.getD []), files := files } c' d' ∧
        List.Forall₂ (BinderFile.IsReadBack (binder4StoresIds b.format) (binderFormatHasNames b.format))
          b.files files := by
  obtain ⟨places, hplaces, -⟩ := himage.exists_places hD
  have hleads : List.Forall₂ (BinderHeaderLeads codecs D (binder4StoresIds b.format)
      (binderFormatHasNames b.format)) b.files (binder4HeadersReadBack b.format b.files places) :=
    binder4HeadersReadBack_lead fun i file hfile => by
      obtain ⟨hp, -, -, hz⟩ := hplaces i file hfile
      exact ⟨hp, hz⟩
  have hend : 48 ≤ D.length := by
    have hle := himage.bdf.zero40.le
    rwa [length_wordBytes] at hle
  have hread : ∃ files, Reads (binderReadFiles (bxf4ExtractFileData codecs)
      (binder4HeadersReadBack b.format b.files places)) ⟨D, 48, b.bigEndian, false, [], flex⟩ files
        ⟨D, 48, b.bigEndian, false, [], flex⟩ ∧
      List.Forall₂ (BinderFile.IsReadBack (binder4StoresIds b.format) (binderFormatHasNames b.format))
        b.files files := reads_binderReadFiles flex hleads hinv hend
  obtain ⟨files, hfiles, hback⟩ := hread
  have hheader := reads_bxf4ReadBhfHeader flex customAllocator himage hfit hB hformat hextended fun i file hfile =>
    have ⟨hp, hsize, hplace, _⟩ := hplaces i file hfile
    ⟨hp, hsize, hplace⟩
  refine ⟨files, ⟨B, binder4EntryAt b.format b.files.length, b.bigEndian, false, [], flex⟩,
    ⟨D, 48, b.bigEndian, false, [], flex⟩, ?_, hback⟩
  refine (ReaderPair.Reads.onBdt (reads_bxf4ReadBdfHeader himage.bdf hfit)).bind ?_
  refine (ReaderPair.Reads.onBhd hheader).bind ?_
  refine (ReaderPair.Reads.onBhd (reads_bxf4AllocFiles _ _)).bind ?_
  refine (ReaderPair.Reads.onBdt hfiles).bind ?_
  exact (ReaderPair.Reads.onBhd (reads_binderBulkCopyNames _ _)).bind (ReaderPair.Reads.pure _ _ _)

end Reading

/-! ## The whole run -/

/-- **An archive that is written is read back**: what its headers say, and its files in order. The data of no two
    files overlaps. -/
theorem bxf4_written_is_read_back (os : Win32) (hos : os.AsciiCompatible) (codecs : Codecs) (qs : Qsort)
    (b : Bxf4) (hfit : b.Fits os) (hformat : BinderFormatKept b.bitBigEndian b.format)
    (hextended : b.extended ∈ [0, 4])
    (hinv : ∀ file ∈ b.files, binderFileIsCompressed file.flags = true → codecs.InvertsDcx file)
    (heap : Heap) (hgranting : heap.Calm) (bhd bdt : List UInt8)
    (hwrite : (bxf4WriteToMemory os codecs qs b heap).1 = .ok (bhd, bdt)) (hbhd : bhd.length < 2 ^ 31)
    (hbdt : bdt.length < 2 ^ 31) (flexible customAllocator : Bool) (heap' : Heap) (hcalm : heap'.Calm) :
    (∃ files, (bxf4ReadFromMemory os customAllocator codecs flexible bhd bdt heap').1
        = .ok { b with version := some (b.version.getD []), files := files } ∧
      List.Forall₂ (BinderFile.IsReadBack (binder4StoresIds b.format) (binderFormatHasNames b.format))
        b.files files) ∧
    ∃ props headers, (BinaryReader.onMemory bhd false flexible (bxf4ReadBhfHeader os customAllocator) heap').1
        = .ok (props, headers) ∧ headers.length = b.files.length ∧ BinderRangesInOrder headers bdt.length := by
  have hmax : INT32_MAX = 2 ^ 31 - 1 := rfl
  have himage := (puts_bxf4WriteToWriters codecs hos qs hfit).toMemory hgranting hwrite
  constructor
  · obtain ⟨files, c', d', hread, hback⟩ := reads_bxf4PopulateFromReaders flexible customAllocator himage hfit
      (by omega) (by omega) hformat hextended hinv
    refine ⟨files, ReaderPair.onMemory_ok c' d' ?_ hcalm, hback⟩
    refine (ReaderPair.Reads.onBhd (reads_openDecompressed codecs himage.bhf.magic rfl (by decide))).bind ?_
    refine (ReaderPair.Reads.onBdt (reads_openDecompressed codecs himage.bdf.magic rfl (by decide))).bind ?_
    exact ReaderPair.Reads.alloc fun _ => ReaderPair.Reads.alloc fun _ => hread
  · obtain ⟨places, hplaces, hranges⟩ := himage.exists_places (by omega)
    have hheader := reads_bxf4ReadBhfHeader flexible customAllocator himage hfit (by omega) hformat hextended
      fun i file hfile =>
        have ⟨hp, hsize, hplace, _⟩ := hplaces i file hfile
        ⟨hp, hsize, hplace⟩
    obtain ⟨_, hok, -⟩ := BinaryReader.onMemory_ok hheader hcalm
    exact ⟨_, _, congrArg Prod.fst hok, length_binder4HeadersReadBack _ _ _, hranges⟩

/-- A file that is compressed, one without a name and an empty one with the id of the first, and a table of the
    names. -/
def bxf4Sample : Bxf4 :=
  { files := [⟨5, some (cstr "a"), [1, 2, 3], 0x41, .dcxZstd 3⟩, ⟨-7, none, [4], 0x02, .zlib⟩,
      ⟨5, some (cstr "b"), [], 0, .zlib⟩]
    version := some (cstr "07D7R6"), format := 0x3E, unk04 := true, unk05 := false, bigEndian := true
    bitBigEndian := false, unicode := true, extended := 4 }

/-- What an archive is written to. -/
def bxf4Bytes (os : Win32) (b : Bxf4) : List UInt8 × List UInt8 :=
  (bxf4WriteToMemory os storingCodecs Qsort.insertion b []).1.toOption.getD ([], [])

theorem bxf4_sample_is_read_back :
    (∃ files, (bxf4ReadFromMemory .ascii false storingCodecs false (bxf4Bytes .ascii bxf4Sample).1
        (bxf4Bytes .ascii bxf4Sample).2 []).1 = .ok { bxf4Sample with files := files } ∧
      List.Forall₂ (BinderFile.IsReadBack true true) bxf4Sample.files files) ∧
    ∃ props headers, (BinaryReader.onMemory (bxf4Bytes .ascii bxf4Sample).1 false false
        (bxf4ReadBhfHeader .ascii false) []).1 = .ok (props, headers) ∧ headers.length = 3 ∧
      BinderRangesInOrder headers (bxf4Bytes .ascii bxf4Sample).2.length := by
  have hplain : Win32.isPlain (bxf4Sample.version.getD []) = true ∧
      ∀ file ∈ bxf4Sample.files, Win32.isPlain (file.nameUtf8.getD []) = true := by decide +kernel
  have hfits : ∀ t, Win32.isPlain t = true → Win32.ascii.Fits .shiftJis t ∧ Win32.ascii.Fits16 t := fun t ht =>
    ⟨Win32.ascii_compatible.fits (Win32.isPlain_iff.1 ht).1 (Win32.isPlain_iff.1 ht).2,
      Win32.ascii_compatible.fits16 (Win32.isPlain_iff.1 ht).1 (Win32.isPlain_iff.1 ht).2⟩
  have hfit : bxf4Sample.Fits .ascii :=
    { version := (hfits _ hplain.1).1
      versionLength := by decide +kernel
      names := fun _ file hfile => (hfits _ (hplain.2 file hfile)).2 }
  refine bxf4_written_is_read_back .ascii Win32.ascii_compatible storingCodecs Qsort.insertion bxf4Sample hfit
    (by decide) (by decide) (fun file hfile hcomp => ?_) [] Heap.calm_nil (bxf4Bytes .ascii bxf4Sample).1
    (bxf4Bytes .ascii bxf4Sample).2 (by decide +kernel) (by decide +kernel) (by decide +kernel) false false []
    Heap.calm_nil
  obtain rfl : file = ⟨5, some (cstr "a"), [1, 2, 3], 0x41, .dcxZstd 3⟩ := by
    simp only [bxf4Sample, List.mem_cons, List.not_mem_nil, or_false] at hfile
    rcases hfile with rfl | rfl | rfl
    · rfl
    · exact absurd hcomp (by decide)
    · exact absurd hcomp (by decide)
  exact invertsDcx_of_kept storingCodecs_inverts (by decide) trivial fun z hz => by
    cases hz
    decide

/-- A version that Shift-JIS does not have comes back as a question mark. -/
theorem bxf4_thai_version_is_not_read_back :
    let b : Bxf4 := { bxf4Sample with files := [], version := some [0xE0, 0xB8, 0x81] }
    Win32.questionMark.AsciiCompatible ∧ BinderFormatKept b.bitBigEndian b.format ∧
      (bxf4WriteToMemory .questionMark storingCodecs Qsort.insertion b []).1
        = .ok (bxf4Bytes .questionMark b) ∧
      (bxf4ReadFromMemory .questionMark false storingCodecs false (bxf4Bytes .questionMark b).1
        (bxf4Bytes .questionMark b).2 []).1 = .ok { b with version := some (cstr "?") } :=
  ⟨Win32.questionMark_compatible, by decide, by decide +kernel, by decide +kernel⟩

end SoulsFormats
