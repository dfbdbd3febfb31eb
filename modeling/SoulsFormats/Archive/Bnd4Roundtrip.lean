import SoulsFormats.Archive.Binder4Image
import SoulsFormats.Archive.Bnd4

set_option autoImplicit false

/-! # BND4 archives are read back

The headers are those that BXF4 has as well; the data follows them in the same file. -/

namespace SoulsFormats

open Bytes Fallible

/-- What decides how the headers of an archive are stored. -/
def Bnd4.mode (b : Bnd4) : Binder4Mode := ⟨b.format, b.bitBigEndian, b.bigEndian, b.unicode⟩

/-- The texts that are stored can be stored, the version in eight bytes of Shift-JIS. -/
structure Bnd4.Fits (os : Win32) (b : Bnd4) : Prop where
  version : os.Fits .shiftJis (b.version.getD [])
  versionLength : (os.encoded .shiftJis (b.version.getD [])).length ≤ 8
  names : Binder4NamesFit os b.mode b.files

/-- What the header of a file says of the data, of which `z` is stored at `p`. -/
structure Bnd4DataAt (codecs : Codecs) (M : Binder4Mode) (B : List UInt8) (i : Nat) (file : BinderFile)
    (p : Nat) (z : List UInt8) : Prop where
  stores : BinderStores codecs file z
  place : Binder4PlaceAt M B i file p z.length
  data : Holds B p z

/-- What the file of an archive holds. -/
structure Bnd4Image (os : Win32) (codecs : Codecs) (b : Bnd4) (B : List UInt8) : Prop where
  header : Binder4HeaderAt os b.mode (cstr "BND4") (b.version.getD []) b.unk04 b.unk05 b.extended
    b.files.length B
  headers : Binder4Image os b.mode b.extended b.files B
  headersEnd : ∃ p : Nat, Holds B 40 (wordBytes b.bigEndian 8 (Int64.ofNat p).toUInt64.toNat)
  data : ∀ i file, b.files[i]? = some file → ∃ p z, Bnd4DataAt codecs b.mode B i file p z

/-! ## Writing -/

section Writing

open BinaryWriter

variable {os : Win32} {codecs : Codecs} {b : Bnd4}

theorem puts_binder4WriteFileData {M : Binder4Mode} {pos : Nat} (i : Nat) (file : BinderFile) :
    Puts (binder4Slots M.format) (binder4WriteFileData codecs M.format file.header file.data i)
      ⟨pos, M.bigEndian, false⟩ (fun _ st => ∃ p, st = ⟨p, M.bigEndian, false⟩) fun _ _ B =>
        ∃ p z, Bnd4DataAt codecs M B i file p z := by
  refine puts_writeFileDataCore.seq fun v st hst => ?_
  obtain ⟨p, size⟩ := v
  obtain ⟨-, rfl⟩ := hst
  refine (puts_binder4FillFileData i p size file).conseq fun _ st hst => ⟨⟨_, hst⟩, fun B hplace hcore => ?_⟩
  obtain ⟨z, hstores, rfl, hdata⟩ := hcore
  exact ⟨p, z, hstores, hplace, hdata⟩

/-- What follows the headers, the names and the hash table. -/
theorem puts_bnd4Data (codecs : Codecs) (M : Binder4Mode) (files : List BinderFile) (pos : Nat) :
    Puts (binder4Slots M.format) (do
      let pos ← peek position
      fillI64 (cstr "HeadersEnd") (Int64.ofNat pos)
      forIndexed (fun i file => binder4WriteFileData codecs M.format file.header file.data i) 0 files)
      ⟨pos, M.bigEndian, false⟩ (fun _ _ => True) fun _ _ B =>
        (∃ p : Nat, Holds B 40 (wordBytes M.bigEndian 8 (Int64.ofNat p).toUInt64.toNat)) ∧
        ∀ i file, files[i]? = some file → ∃ p z, Bnd4DataAt codecs M B i file p z := by
  refine Puts.position (Puts.fillI64 _ (binder4Slots_headersEnd _) ?_)
  have hdata := puts_forIndexed (S := binder4Slots M.format)
    (f := fun i file => binder4WriteFileData codecs M.format file.header file.data i)
    (fun _ st => ∃ p, st = ⟨p, M.bigEndian, false⟩)
    (F := fun i file B => ∃ p z, Bnd4DataAt codecs M B i file p z) files
    (by
      rintro i file _ - ⟨p, rfl⟩
      exact puts_binder4WriteFileData i file) ⟨pos, rfl⟩
  exact hdata.conseq fun _ _ _ => ⟨trivial, fun B hdata hend => ⟨⟨pos, hend⟩, hdata⟩⟩

/-- **What the file of an archive holds.** -/
theorem puts_bnd4WriteToWriter (hos : os.AsciiCompatible) (qs : Qsort) (hfit : b.Fits os) :
    Puts (binder4Slots b.format) (bnd4WriteToWriter os codecs qs b) ⟨0, false, false⟩ (fun _ _ => True)
      fun _ _ B => Bnd4Image os codecs b B := by
  refine Puts.setBigEndian (Puts.ascii hos (by decide) (Puts.bool (Puts.bool (Puts.u8 (Puts.u8 (Puts.u8
    (Puts.bool (Puts.bool (Puts.u8 (Puts.i32 (Puts.i64 (Puts.fixStr (by decide) hfit.version.noNul
    hfit.versionLength (Puts.i64 (Puts.reserveI64 _ (binder4Slots_headersEnd _) rfl (Puts.bool (Puts.dropped
    trivial (by decide) (Puts.u8 (Puts.u8 (Puts.i32 (Puts.reserveI64 _ (binder4Slots_hashTableOffset _) rfl
    ?_))))))))))))))))))))
  have hrest := puts_binder4Headers_bind (G := fun _ _ B => Binder4Image os b.mode b.extended b.files B ∧
      (∃ p : Nat, Holds B 40 (wordBytes b.bigEndian 8 (Int64.ofNat p).toUInt64.toNat)) ∧
      ∀ i file, b.files[i]? = some file → ∃ p z, Bnd4DataAt codecs b.mode B i file p z) qs hfit.names
    fun pos => (puts_bnd4Data codecs b.mode b.files pos).mono fun _ _ _ B hdata himage => ⟨himage, hdata⟩
  refine (puts_binderAllocHeaders hrest).mono fun _ _ _ B hB hz52 hz51 hextended hformat hunicode hentrySize
    hversion hheaderSize hcount hz11 hbit hbig hz8 hz7 hz6 hunk05 hunk04 hmagic => ?_
  obtain ⟨hheaders, hend, hdata⟩ := hB
  exact
    { header :=
        { magic := hmagic, unk04 := hunk04, unk05 := hunk05, zero6 := hz6, zero7 := hz7, zero8 := hz8
          bigEndian := hbig, bitBigEndian := hbit, zero11 := hz11, count := hcount, headerSize := hheaderSize
          version := hversion, entrySize := hentrySize, unicode := hunicode, format := hformat
          extended := hextended, zero51 := hz51, zero52 := hz52 }
      headers := hheaders, headersEnd := hend, data := hdata }

end Writing

/-! ## Reading -/

section Reading

open BinaryReader

variable {os : Win32} {codecs : Codecs} {b : Bnd4} {B : List UInt8}

theorem reads_bnd4ReadHeader (flex customAllocator : Bool) {places : Nat → Nat × Nat}
    (himage : Bnd4Image os codecs b B) (hfit : b.Fits os) (hB : B.length ≤ INT32_MAX)
    (hformat : BinderFormatKept b.bitBigEndian b.format) (hextended : b.extended ∈ [0, 1, 4, 0x80])
    (hplaces : ∀ i file, b.files[i]? = some file → ∃ z, Bnd4DataAt codecs b.mode B i file (places i).1 z ∧
      (places i).2 = z.length) :
    Reads (bnd4ReadHeader os customAllocator) ⟨B, 0, false, false, [], flex⟩
      ({ b with version := some (b.version.getD []), files := [] },
        binder4HeadersReadBack b.format b.files places)
      ⟨B, binder4EntryAt b.format b.files.length, b.bigEndian, false, [], flex⟩ := by
  have hheader := himage.header
  obtain ⟨q, hend⟩ := himage.headersEnd
  obtain ⟨p, hp, hoffset, htable⟩ := himage.headers.hashTable
  have hheaders := reads_binder4FileHeaders flex customAllocator places himage.headers hfit.names hB
    fun i file hfile => by
      obtain ⟨z, hdata, hsize⟩ := hplaces i file hfile
      have hle := hdata.data.le
      rw [hsize]
      exact ⟨by omega, by omega, hdata.place⟩
  have hstart : 64 ≤ B.length := le_trans (Nat.le_add_right 64 _) himage.headers.headers
  unfold bnd4ReadHeader
  refine Reads.ascii hheader.magic (Reads.bool hheader.unk04 (Reads.bool hheader.unk05 (Reads.assertU8 hheader.zero6
    (by decide) (Reads.assertU8 hheader.zero7 (by decide) (Reads.assertU8 hheader.zero8 (by decide) (Reads.bool
    hheader.bigEndian (Reads.bool hheader.bitBigEndian (Reads.assertU8 hheader.zero11 (by decide) (Reads.setBig
    (Reads.i32 hheader.count (Reads.assertI64 hheader.headerSize (by decide) (Reads.fixStr (by decide)
    hfit.version hfit.versionLength (by decide) hheader.version (Reads.i64 hheader.entrySize (Reads.i64 hend
    (Reads.bool hheader.unicode ?_)))))))))))))))
  rw [Bool.not_not]
  refine (reads_binderReadFormat hformat hheader.format).bind (Reads.assertU8 hheader.extended hextended
    (Reads.assertU8 hheader.zero51 (by decide) (Reads.assertI32 hheader.zero52 (by decide) (Reads.i64 hoffset
    ((reads_binder4ReadHashTable hp hB hstart htable).bind (Reads.check rfl (hheaders.bind ?_)))))))
  exact Reads.pure _ _

theorem reads_bnd4PopulateFromReader (flex customAllocator : Bool) (himage : Bnd4Image os codecs b B)
    (hfit : b.Fits os) (hB : B.length ≤ INT32_MAX) (hformat : BinderFormatKept b.bitBigEndian b.format)
    (hextended : b.extended ∈ [0, 1, 4, 0x80])
    (hinv : ∀ file ∈ b.files, binderFileIsCompressed file.flags = true → codecs.InvertsDcx file) :
    ∃ files c', Reads (bnd4PopulateFromReader os customAllocator codecs) ⟨B, 0, false, false, [], flex⟩
      { b with version := some (b.version.getD []), files := files } c' ∧
        List.Forall₂ (BinderFile.IsReadBack (binder4StoresIds b.format) (binderFormatHasNames b.format))
          b.files files := by
  obtain ⟨places, hplaces⟩ := BinaryWriter.exists_places
    (F := fun i file (place : Nat × Nat) =>
      ∃ z, Bnd4DataAt codecs b.mode B i file place.1 z ∧ place.2 = z.length)
    fun i file hfile => by
      obtain ⟨p, z, hdata⟩ := himage.data i file hfile
      exact ⟨(p, z.length), z, hdata, rfl⟩
  have hleads : List.Forall₂ (BinderHeaderLeads codecs B (binder4StoresIds b.format)
      (binderFormatHasNames b.format)) b.files (binder4HeadersReadBack b.format b.files places) :=
    binder4HeadersReadBack_lead fun i file hfile => by
      obtain ⟨z, hdata, hsize⟩ := hplaces i file hfile
      have hle := hdata.data.le
      exact ⟨by omega, z, hdata.stores, hsize, hdata.data⟩
  obtain ⟨files, hfiles, hback⟩ := reads_binderReadFiles flex hleads hinv himage.headers.headers
  have hheader := reads_bnd4ReadHeader flex customAllocator himage hfit hB hformat hextended hplaces
  exact ⟨files, _, hheader.bind ((reads_binderAllocFiles _ _).bind (hfiles.bind (Reads.pure _ _))), hback⟩

end Reading

/-! ## The whole run -/

/-- **An archive that is written is read back**: what its header says, and its files in order. -/
theorem bnd4_written_is_read_back (os : Win32) (hos : os.AsciiCompatible) (codecs : Codecs) (qs : Qsort)
    (b : Bnd4) (hfit : b.Fits os) (hformat : BinderFormatKept b.bitBigEndian b.format)
    (hextended : b.extended ∈ [0, 1, 4, 0x80])
    (hinv : ∀ file ∈ b.files, binderFileIsCompressed file.flags = true → codecs.InvertsDcx file)
    (heap : Heap) (hgranting : heap.Calm) (out : List UInt8)
    (hwrite : (bnd4WriteToMemory os codecs qs b heap).1 = .ok out) (hout : out.length < 2 ^ 31)
    (flexible customAllocator : Bool) (heap' : Heap) (hcalm : heap'.Calm) :
    ∃ files, (bnd4ReadFromMemory os customAllocator codecs flexible out heap').1
        = .ok { b with version := some (b.version.getD []), files := files } ∧
      List.Forall₂ (BinderFile.IsReadBack (binder4StoresIds b.format) (binderFormatHasNames b.format))
        b.files files := by
  have hmax : INT32_MAX = 2 ^ 31 - 1 := rfl
  obtain ⟨st, -, himage, -⟩ := (puts_bnd4WriteToWriter hos qs hfit).detached (fun _ => hgranting) hwrite
  obtain ⟨files, c', hread, hback⟩ := reads_bnd4PopulateFromReader flexible customAllocator himage hfit
    (by omega) hformat hextended hinv
  exact ⟨files, onMemory_withDecompressedReader codecs himage.header.magic rfl (by decide)
    (BinaryReader.reads_alloc _ fun _ => BinaryReader.reads_alloc _ fun _ => hread) hcalm, hback⟩

/-- A file that is compressed, one without a name and an empty one with the id of the first, and a table of the
    names. -/
def bnd4Sample : Bnd4 :=
  { files := [⟨5, some (cstr "a"), [1, 2, 3], 0x41, .dcxZstd 3⟩, ⟨-7, none, [4], 0x02, .zlib⟩,
      ⟨5, some (cstr "b"), [], 0, .zlib⟩]
    version := some (cstr "07D7R6"), format := 0x3E, unk04 := true, unk05 := false, bigEndian := true
    bitBigEndian := false, unicode := true, extended := 4 }

/-- What an archive is written to. -/
def bnd4Bytes (os : Win32) (b : Bnd4) : List UInt8 :=
  (bnd4WriteToMemory os storingCodecs Qsort.insertion b []).1.toOption.getD []

theorem bnd4_sample_is_read_back :
    ∃ files, (bnd4ReadFromMemory .ascii false storingCodecs false (bnd4Bytes .ascii bnd4Sample) []).1
        = .ok { bnd4Sample with files := files } ∧
      List.Forall₂ (BinderFile.IsReadBack true true) bnd4Sample.files files := by
  have hplain : Win32.isPlain (bnd4Sample.version.getD []) = true ∧
      ∀ file ∈ bnd4Sample.files, Win32.isPlain (file.nameUtf8.getD []) = true := by decide +kernel
  have hfits : ∀ t, Win32.isPlain t = true → Win32.ascii.Fits .shiftJis t ∧ Win32.ascii.Fits16 t := fun t ht =>
    ⟨Win32.ascii_compatible.fits (Win32.isPlain_iff.1 ht).1 (Win32.isPlain_iff.1 ht).2,
      Win32.ascii_compatible.fits16 (Win32.isPlain_iff.1 ht).1 (Win32.isPlain_iff.1 ht).2⟩
  have hfit : bnd4Sample.Fits .ascii :=
    { version := (hfits _ hplain.1).1
      versionLength := by decide +kernel
      names := fun _ file hfile => (hfits _ (hplain.2 file hfile)).2 }
  refine bnd4_written_is_read_back .ascii Win32.ascii_compatible storingCodecs Qsort.insertion bnd4Sample hfit
    (by decide) (by decide) (fun file hfile hcomp => ?_) [] Heap.calm_nil (bnd4Bytes .ascii bnd4Sample)
    (by decide +kernel) (by decide +kernel) false false [] Heap.calm_nil
  obtain rfl : file = ⟨5, some (cstr "a"), [1, 2, 3], 0x41, .dcxZstd 3⟩ := by
    simp only [bnd4Sample, List.mem_cons, List.not_mem_nil, or_false] at hfile
    rcases hfile with rfl | rfl | rfl
    · rfl
    · exact absurd hcomp (by decide)
    · exact absurd hcomp (by decide)
  exact invertsDcx_of_kept storingCodecs_inverts (by decide) trivial fun z hz => by
    cases hz
    decide

/-- A version that Shift-JIS does not have comes back as a question mark. -/
theorem bnd4_thai_version_is_not_read_back :
    let b : Bnd4 := { bnd4Sample with files := [], version := some [0xE0, 0xB8, 0x81] }
    Win32.questionMark.AsciiCompatible ∧ BinderFormatKept b.bitBigEndian b.format ∧
      (bnd4WriteToMemory .questionMark storingCodecs Qsort.insertion b []).1
        = .ok (bnd4Bytes .questionMark b) ∧
      (bnd4ReadFromMemory .questionMark false storingCodecs false (bnd4Bytes .questionMark b) []).1
        = .ok { b with version := some (cstr "?") } :=
  ⟨Win32.questionMark_compatible, by decide, by decide +kernel, by decide +kernel⟩

end SoulsFormats
