import SoulsFormats.Archive.BinderCommon
import SoulsFormats.Compression.DcxGranting
import SoulsFormats.Compression.DcxRoundtrip
import SoulsFormats.Core.Layout

set_option autoImplicit false

/-! # What is read back of the files of a binder

A file comes back with its flags and its data; its id and its name come back if the format stores them. -/

namespace SoulsFormats

open Bytes Fallible

/-- The byte that is written for a format says what the format is. -/
def BinderFormatKept (bitBigEndian : Bool) (f : UInt8) : Prop :=
  binderFormatOfRaw bitBigEndian (binderFormatRaw bitBigEndian f) = f

instance (bitBigEndian : Bool) (f : UInt8) : Decidable (BinderFormatKept bitBigEndian f) :=
  inferInstanceAs (Decidable (_ = _))

/-- The bits of a byte, reversed twice. -/
theorem reverseBitsU8_reverseBitsU8 (b : UInt8) : reverseBitsU8 (reverseBitsU8 b) = b := by
  have h : ∀ n : Fin 256, reverseBitsU8 (reverseBitsU8 (UInt8.ofFin n)) = UInt8.ofFin n := by decide +kernel
  exact h b.toFin

theorem binderFileFlagsRaw_raw (bitBigEndian : Bool) (flags : UInt8) :
    binderFileFlagsRaw bitBigEndian (binderFileFlagsRaw bitBigEndian flags) = flags := by
  cases bitBigEndian with
  | false => exact reverseBitsU8_reverseBitsU8 flags
  | true => rfl

/-- Whatever the compression of a file makes of its data, decompression returns it. -/
def Codecs.InvertsDcx (codecs : Codecs) (file : BinderFile) : Prop :=
  ∀ (heap : Heap) (z : List UInt8),
    (dcxCompressToBuffer codecs file.data file.compressionInfo heap).1 = .ok z →
    ∃ info, ∀ heap' : Heap, heap'.Calm → (dcxDecompressFromBuffer codecs z heap').1 = .ok (file.data, info)

/-- A file whose container says all of what its info says, and whose compressed payload fits. -/
theorem invertsDcx_of_kept {codecs : Codecs} (hinv : codecs.Inverts) {file : BinderFile}
    (hx : file.data.length < 2 ^ 32 - 16) (hinfo : file.compressionInfo.IsKept)
    (hfits : DcxPayloadFits codecs file.data file.compressionInfo) : codecs.InvertsDcx file := by
  intro heap z hz
  obtain ⟨-, hdecode⟩ := dcxCompress_decodes hinv hx hinfo hz
  exact ⟨file.compressionInfo, fun heap' hcalm => (hdecode heap' hcalm).2 hfits⟩

/-- What is stored for a file. -/
def BinderStores (codecs : Codecs) (file : BinderFile) (z : List UInt8) : Prop :=
  if binderFileIsCompressed file.flags then
    ∃ heap, (dcxCompressToBuffer codecs file.data file.compressionInfo heap).1 = .ok z
  else z = file.data

/-- A file and what it comes back as, from an archive that stores ids or names or not. How it was compressed
    is known from what is stored. -/
def BinderFile.IsReadBack (storesIds storesNames : Bool) (file file' : BinderFile) : Prop :=
  ∃ info, file' =
    { file with
      id := if storesIds then file.id else -1
      nameUtf8 := if storesNames then some (file.nameUtf8.getD []) else none
      compressionInfo := info }

/-- How wide the offset of the data is. -/
def binderOffsetWidth (f : UInt8) : Nat := if binderFormatHasLongOffsets f then 8 else 4

/-- The bytes of the offset of the data. -/
def binderOffsetBytes (be : Bool) (f : UInt8) (p : Nat) : List UInt8 :=
  if binderFormatHasLongOffsets f then wordBytes be 8 (Int64.ofNat p).toUInt64.toNat
  else wordBytes be 4 (UInt32.ofNat p).toNat

/-- The name of a file as it is stored, and where the offset to it stands. -/
structure BinderNameAt (os : Win32) (unicode be : Bool) (B : List UInt8) (addr : Nat) (file : BinderFile)
    (p : Nat) : Prop where
  offset : Holds B addr (wordBytes be 4 (Int32.ofNat p).toUInt32.toNat)
  name : Holds B p (storedText os unicode be (file.nameUtf8.getD []))

/-! ## Writing -/

section Writing

open BinaryWriter

variable {σ : Type} {S : FileSlots σ} {codecs : Codecs} {file : BinderFile} {pos : Nat} {be : Bool}

section

variable {α : Type} {f : UInt8} {i : Nat} {g : Unit → WriteM α} {Q : α → Stand → Prop}
  {G : α → Stand → List UInt8 → Prop}

/-- The slot of the offset of the data of the `i`-th file. -/
def IsOffsetSlot (S : FileSlots σ) (f : UInt8) (i : Nat) (s : σ) : Prop :=
  S.key s = (label "FileDataOffset" i, if binderFormatHasLongOffsets f then .i64 else .u32)

theorem puts_binderReserveDataOffset (s : σ) (hs : IsOffsetSlot S f i s) (haddr : S.addr s = pos)
    (hg : Puts S (g ()) ⟨pos + binderOffsetWidth f, be, false⟩ Q G) :
    Puts S (binderReserveDataOffset f i >>= g) ⟨pos, be, false⟩ Q G := by
  unfold IsOffsetSlot at hs
  unfold binderReserveDataOffset
  unfold binderOffsetWidth at hg
  split at hs
  · next hlong =>
      rw [if_pos hlong] at hg ⊢
      exact Puts.reserveI64 s hs haddr hg
  · next hlong =>
      rw [if_neg hlong] at hg ⊢
      exact Puts.reserveU32 s hs haddr hg

theorem puts_binderFillDataOffset (s : σ) (hs : IsOffsetSlot S f i s) {p : Nat}
    (hg : Puts S (g ()) ⟨pos, be, false⟩ Q
      fun u st B => Holds B (S.addr s) (binderOffsetBytes be f p) → G u st B) :
    Puts S (binderFillDataOffset f i p >>= g) ⟨pos, be, false⟩ Q G := by
  unfold IsOffsetSlot at hs
  unfold binderFillDataOffset
  unfold binderOffsetBytes at hg
  split at hs
  · next hlong =>
      simp only [if_pos hlong] at hg ⊢
      exact Puts.fillI64 s hs hg
  · next hlong =>
      simp only [if_neg hlong] at hg ⊢
      exact Puts.fillU32 s hs hg

end

/-- A name is stored where its header says. -/
theorem puts_binder4WriteFileName {os : Win32} {f : UInt8} {i : Nat} (unicode : Bool) (s : σ)
    (hs : S.key s = (label "FileNameOffset" i, .i32))
    (hfit : binderFormatHasNames f = true →
      if unicode then os.Fits16 (file.nameUtf8.getD []) else os.Fits .shiftJis (file.nameUtf8.getD [])) :
    Puts S (binder4WriteFileName os f unicode file.header i) ⟨pos, be, false⟩
      (fun _ st => ∃ p, pos ≤ p ∧ st = ⟨p, be, false⟩) fun _ _ B =>
        binderFormatHasNames f = true → ∃ p, BinderNameAt os unicode be B (S.addr s) file p := by
  refine Puts.ite (fun hnames => ?_) fun hnames => Puts.done ⟨_, le_refl _, rfl⟩ fun _ h => absurd h hnames
  have hfit := hfit hnames
  refine Puts.position (Puts.fillI32 s hs ?_)
  cases unicode with
  | false =>
      have hfit : os.Fits .shiftJis (file.nameUtf8.getD []) := hfit
      exact Puts.last (Puts.shiftJis hfit.noNul (Puts.done ⟨_, Nat.le_add_right _ _, rfl⟩
        fun B hname hoffset _ => ⟨pos, hoffset, hname⟩))
  | true =>
      have hfit : os.Fits16 (file.nameUtf8.getD []) := hfit
      exact Puts.last (Puts.utf16 hfit.noNul (Puts.done ⟨_, Nat.le_add_right _ _, rfl⟩
        fun B hname hoffset _ => ⟨pos, hoffset, hname⟩))

/-- The names of BND3 are those of BND4 in Shift-JIS. -/
theorem puts_binder3WriteFileName {os : Win32} {f : UInt8} {i : Nat} (s : σ)
    (hs : S.key s = (label "FileNameOffset" i, .i32))
    (hfit : binderFormatHasNames f = true → os.Fits .shiftJis (file.nameUtf8.getD [])) :
    Puts S (binder3WriteFileName os f file.header i) ⟨pos, be, false⟩
      (fun _ st => ∃ p, pos ≤ p ∧ st = ⟨p, be, false⟩) fun _ _ B =>
        binderFormatHasNames f = true → ∃ p, BinderNameAt os false be B (S.addr s) file p :=
  puts_binder4WriteFileName false s hs hfit

theorem puts_binderAllocHeaders {α : Type} {files : List BinderFile} {g : Unit → WriteM α}
    {Q : α → Stand → Prop} {G : α → Stand → List UInt8 → Prop} (hg : Puts S (g ()) ⟨pos, be, false⟩ Q G) :
    Puts S (binderAllocHeaders files >>= g) ⟨pos, be, false⟩ Q G := by
  unfold binderAllocHeaders Fallible.given
  rw [bind_assoc]
  cases files.isEmpty with
  | false => exact Puts.alloc fun _ => hg
  | true => exact hg

/-- The data is stored where the function says, and it says how much is stored. -/
theorem puts_writeFileDataCore :
    Puts S (writeFileDataCore codecs file.header file.data) ⟨pos, be, false⟩
      (fun v st => pos ≤ v.1 ∧ st = ⟨v.1 + v.2, be, false⟩) fun v _ B =>
        ∃ z, BinderStores codecs file z ∧ v.2 = z.length ∧ Holds B v.1 z := by
  unfold writeFileDataCore
  refine Puts.given (n := padLength pos 0x10) (F := fun _ => True)
    (fun _ => Puts.last (Puts.pad (by decide) (Puts.done rfl fun _ => trivial))) ?_
  refine Puts.mono ?_ fun _ _ _ _ h _ => h
  generalize hp : pos + (if (decide (0 < file.header.uncompressedSize)) = true then padLength pos 0x10 else 0) = p
  have hle : pos ≤ p := by rw [← hp]; exact Nat.le_add_right _ _
  refine Puts.position (Puts.ite (fun hcomp => ?_) fun hcomp => ?_)
  · refine Puts.onHeap (dcxCompressToBuffer_keeps _) fun z hz => Puts.bytes (Puts.done ⟨hle, rfl⟩ fun B hdata => ?_)
    obtain ⟨h, h', hrun⟩ := hz
    refine ⟨z, ?_, rfl, hdata⟩
    rw [BinderStores, if_pos (c := binderFileIsCompressed file.flags = true) hcomp]
    exact ⟨h, congrArg Prod.fst hrun⟩
  · have hstores : BinderStores codecs file file.data := by
      rw [BinderStores, if_neg (c := binderFileIsCompressed file.flags = true) hcomp]
    refine Puts.here (Puts.given (n := file.data.length) (F := fun B => Holds B p file.data)
      (fun _ => Puts.last (Puts.bytes (Puts.done rfl fun _ h => h))) (Puts.done ⟨hle, ?_⟩ fun B hdata hend => ?_))
    · -- without data nothing is written
      show (⟨p + (if decide (0 < file.data.length) = true then file.data.length else 0), be, false⟩ : Stand)
        = ⟨p + file.data.length, be, false⟩
      by_cases hlen : 0 < file.data.length
      · rw [if_pos (decide_eq_true hlen)]
      · have hfalse : ¬ decide (0 < file.data.length) = true := by simpa using hlen
        rw [if_neg hfalse, Nat.eq_zero_of_not_pos hlen]
    · refine ⟨file.data, hstores, rfl, ?_⟩
      by_cases hlen : 0 < file.data.length
      · exact hdata (decide_eq_true hlen)
      · have hnil : file.data = [] := List.length_eq_zero_iff.1 (Nat.eq_zero_of_not_pos hlen)
        rw [hnil]
        exact holds_nil.2 hend

end Writing

/-! ## Reading -/

section Reading

open BinaryReader

variable {codecs : Codecs} {B : List UInt8} {pos : Nat} {be flex : Bool} {steps : List Nat}

theorem reads_binderReadFormat {bitBigEndian : Bool} {f : UInt8} (hf : BinderFormatKept bitBigEndian f)
    (h : Holds B pos [binderFormatRaw bitBigEndian f]) :
    Reads (binderReadFormat bitBigEndian) ⟨B, pos, be, false, steps, flex⟩ f
      ⟨B, pos + 1, be, false, steps, flex⟩ := by
  refine (Reads.attempt (parses_u8 _ _ h)).bind ?_
  show Reads (pure (binderFormatOfRaw bitBigEndian (binderFormatRaw bitBigEndian f))) _ _ _
  rw [hf]
  exact Reads.pure _ _

theorem reads_binderReadFileFlags {bitBigEndian : Bool} {flags : UInt8}
    (h : Holds B pos [binderFileFlagsRaw bitBigEndian flags]) :
    Reads (binderReadFileFlags bitBigEndian) ⟨B, pos, be, false, steps, flex⟩ flags
      ⟨B, pos + 1, be, false, steps, flex⟩ := by
  refine (Reads.attempt (parses_u8 _ _ h)).bind ?_
  show Reads (pure (binderFileFlagsRaw bitBigEndian (binderFileFlagsRaw bitBigEndian flags))) _ _ _
  rw [binderFileFlagsRaw_raw]
  exact Reads.pure _ _

theorem reads_binderReadDataOffset {f : UInt8} {p : Nat} (hp : p ≤ INT32_MAX)
    (h : Holds B pos (binderOffsetBytes be f p)) :
    Reads (binderReadDataOffset f) ⟨B, pos, be, false, steps, flex⟩ p
      ⟨B, pos + binderOffsetWidth f, be, false, steps, flex⟩ := by
  have hmax : INT32_MAX = 2 ^ 31 - 1 := rfl
  unfold binderOffsetBytes at h
  unfold binderReadDataOffset binderOffsetWidth
  split at h
  · next hlong =>
      rw [if_pos hlong, if_pos hlong]
      refine Reads.i64 h ?_
      have hback : (Int64.ofNat p).toUInt64.toNat = p := by
        rw [Int64.toUInt64_ofNat', UInt64.toNat_ofNat', Nat.mod_eq_of_lt (by omega)]
      rw [hback]
      exact Reads.pure _ _
  · next hlong =>
      rw [if_neg hlong, if_neg hlong]
      refine Reads.u32 h ?_
      rw [UInt32.toNat_ofNat', Nat.mod_eq_of_lt (by omega)]
      exact Reads.pure _ _

theorem reads_binderCopyName (customAllocator : Bool) (name : List UInt8) (c : Cursor) :
    Reads (binderCopyName customAllocator name) c (some name) c := by
  unfold binderCopyName Fallible.given
  cases customAllocator with
  | false => exact (Reads.pure _ _).bind (Reads.pure _ _)
  | true => exact reads_alloc _ fun _ => Reads.pure _ _

/-- A header that leads to what `B` stores for a file. -/
structure BinderHeaderLeads (codecs : Codecs) (B : List UInt8) (storesIds storesNames : Bool)
    (file : BinderFile) (h : BinderFileHeader) : Prop where
  flags : h.flags = file.flags
  id : h.id = if storesIds then file.id else -1
  name : h.nameUtf8 = if storesNames then some (file.nameUtf8.getD []) else none
  stored : ∃ z p, BinderStores codecs file z ∧ h.compressedSize = z.length ∧
    (Int64.ofNat h.dataOffset).toInt = (p : Nat) ∧ Holds B p z

variable {storesIds storesNames : Bool} {file : BinderFile} {h : BinderFileHeader}

theorem reads_binderExtractFileData (hleads : BinderHeaderLeads codecs B storesIds storesNames file h)
    (hinv : binderFileIsCompressed file.flags = true → codecs.InvertsDcx file) (hpos : pos ≤ B.length) :
    ∃ info, Reads (binderExtractFileData codecs h) ⟨B, pos, be, false, steps, flex⟩ (file.data, info)
      ⟨B, pos, be, false, steps, flex⟩ := by
  obtain ⟨z, p, hstores, hsize, hoff, hdata⟩ := hleads.stored
  have hraw : Reads (Fallible.given (0 < h.compressedSize) [] (binderReadStored h))
      ⟨B, pos, be, false, steps, flex⟩ z ⟨B, pos, be, false, steps, flex⟩ := by
    rw [hsize]
    unfold Fallible.given
    refine Reads.ite (fun _ => ?_) fun hempty => ?_
    · refine reads_alloc _ fun _ => ?_
      rw [hsize]
      exact Reads.last (Reads.got hoff hdata hpos (parses_bytes _ _) (Reads.pure _ _))
    · have hnil : z = [] := by simpa using hempty
      rw [hnil]
      exact Reads.pure _ _
  unfold BinderStores at hstores
  by_cases hcomp : binderFileIsCompressed file.flags = true
  · rw [if_pos hcomp] at hstores
    obtain ⟨heap, hz⟩ := hstores
    obtain ⟨info, hback⟩ := hinv hcomp heap z hz
    refine ⟨info, hraw.bind ?_⟩
    rw [hleads.flags, if_pos hcomp]
    exact reads_onHeap_of_calm dcxDecompressFromBuffer_keeps hback _
  · rw [if_neg hcomp] at hstores
    refine ⟨.zlib, hraw.bind ?_⟩
    rw [hleads.flags, if_neg hcomp, hstores]
    exact Reads.pure _ _

/-- The files come back in order. -/
theorem reads_binderReadFiles (flex : Bool) {files : List BinderFile} {headers : List BinderFileHeader}
    (hleads : List.Forall₂ (BinderHeaderLeads codecs B storesIds storesNames) files headers)
    (hinv : ∀ file ∈ files, binderFileIsCompressed file.flags = true → codecs.InvertsDcx file)
    (hpos : pos ≤ B.length) :
    ∃ files', Reads (binderReadFiles (binderExtractFileData codecs) headers)
      ⟨B, pos, be, false, steps, flex⟩ files' ⟨B, pos, be, false, steps, flex⟩ ∧
        List.Forall₂ (BinderFile.IsReadBack storesIds storesNames) files files' := by
  induction hleads with
  | nil => exact ⟨[], Reads.pure _ _, .nil⟩
  | @cons file h files headers hfirst _ ih =>
      obtain ⟨info, hdata⟩ := reads_binderExtractFileData hfirst (hinv file List.mem_cons_self) hpos
      obtain ⟨files', hfiles, hback⟩ := ih fun file hfile => hinv file (List.mem_cons_of_mem _ hfile)
      refine ⟨_, hdata.bind (hfiles.bind (Reads.pure _ _)), .cons ⟨info, ?_⟩ hback⟩
      simp only [hfirst.flags, hfirst.id, hfirst.name]

theorem reads_binderBulkCopyNames (headers : List BinderFileHeader) (c : Cursor) :
    Reads (binderBulkCopyNames headers) c () c := by
  unfold binderBulkCopyNames Fallible.given
  cases headers.any fun h => h.nameUtf8.isSome with
  | false => exact (Reads.pure _ _).bind (Reads.pure _ _)
  | true => exact reads_alloc _ fun _ => Reads.pure _ _

/-- The room for the files. -/
theorem reads_binderAllocFiles (headers : List BinderFileHeader) (c : Cursor) :
    Reads (binderAllocFiles headers) c () c :=
  Reads.ite (fun _ => reads_alloc _ fun _ => reads_binderBulkCopyNames headers c) fun _ => Reads.pure _ _

/-- The headers, where a header that starts at `c i` ends at `c (i + 1)`. -/
theorem reads_binderReadFileHeaders (header : ReadM BinderFileHeader) (c : Nat → Cursor)
    (headers : List BinderFileHeader) (hcount : headers.length ≤ INT32_MAX)
    (hheader : ∀ i h, headers[i]? = some h → Reads header (c i) h (c (i + 1))) :
    Reads (binderReadFileHeaders header (Int32.ofNat headers.length)) (c 0) headers (c headers.length) := by
  have hint := int32_toInt_ofNat hcount
  have hloop := reads_readEach_at c headers hheader
  unfold binderReadFileHeaders
  refine Reads.check (by rw [hint]; exact Int.natCast_nonneg _) ?_
  rw [hint, Int.toNat_natCast]
  unfold Fallible.given
  cases (decide (0 < (headers.length : Int))) with
  | false => exact (Reads.pure _ _).bind hloop
  | true => exact reads_alloc _ fun _ => hloop

end Reading

end SoulsFormats
