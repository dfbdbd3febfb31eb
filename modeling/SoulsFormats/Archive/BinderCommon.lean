import SoulsFormats.Compression.DecompressedReader

set_option autoImplicit false

/-! # What the binders share

The parts of `binder_common.c`, `sf_binder.c` and `filename_hash.c` that the archives BND3, BND4 and BXF4
are made of: the format byte and the flags of a file, which are stored with their bits in either order, the
header of a file, its name and its data, and the hash table of the names. -/

namespace SoulsFormats

open Bytes Fallible

/-! ## Format byte and flags -/

/-- `SF_BINDER_FORMAT_NAMES1`. -/
def binderFormatNames1 : UInt8 := 0x04

def binderFormatForceBigEndian (f : UInt8) : Bool := f &&& 0x01 != 0
def binderFormatHasIds (f : UInt8) : Bool := f &&& 0x02 != 0
def binderFormatHasNames1 (f : UInt8) : Bool := f &&& 0x04 != 0
def binderFormatHasNames2 (f : UInt8) : Bool := f &&& 0x08 != 0
def binderFormatHasLongOffsets (f : UInt8) : Bool := f &&& 0x10 != 0
def binderFormatHasCompression (f : UInt8) : Bool := f &&& 0x20 != 0
def binderFormatHasFlag6 (f : UInt8) : Bool := f &&& 0x40 != 0

/-- The test before every access to a name. -/
def binderFormatHasNames (f : UInt8) : Bool := binderFormatHasNames1 f || binderFormatHasNames2 f

/-- `sf_reverse_bits_u8`. -/
def reverseBitsU8 (b : UInt8) : UInt8 :=
  ((b &&& 0x01) <<< 7) ||| ((b &&& 0x02) <<< 5) ||| ((b &&& 0x04) <<< 3) ||| ((b &&& 0x08) <<< 1) |||
    ((b &&& 0x10) >>> 1) ||| ((b &&& 0x20) >>> 3) ||| ((b &&& 0x40) >>> 5) ||| ((b &&& 0x80) >>> 7)

/-- What `sfi_binder_read_format` makes of the byte it has read. -/
def binderFormatOfRaw (bitBigEndian : Bool) (raw : UInt8) : UInt8 :=
  if bitBigEndian || (raw &&& 0x01 != 0 && raw &&& 0x80 == 0) then raw else reverseBitsU8 raw

/-- The byte that `sfi_binder_write_format` writes. -/
def binderFormatRaw (bitBigEndian : Bool) (f : UInt8) : UInt8 :=
  if bitBigEndian || (binderFormatForceBigEndian f && binderFormatHasFlag6 f) then f else reverseBitsU8 f

/-- The byte of the flags of a file, in either direction. -/
def binderFileFlagsRaw (bitBigEndian : Bool) (flags : UInt8) : UInt8 :=
  if bitBigEndian then flags else reverseBitsU8 flags

/-- `SF_BINDER_FILE_FLAG_COMPRESSED`. -/
def binderFileIsCompressed (flags : UInt8) : Bool := flags &&& 0x01 != 0

/-- `sf_binder_file_t`; the size of the data is its length, and a name may be a null pointer. -/
structure BinderFile where
  id : Int32
  nameUtf8 : Option (List UInt8)
  data : List UInt8
  flags : UInt8
  compressionInfo : DcxCompressionInfo
deriving DecidableEq

/-- `sfi_binder_file_header_t`, as `sfi_binder_file_header_init` leaves it. -/
structure BinderFileHeader where
  flags : UInt8 := 0
  id : Int32 := -1
  nameUtf8 : Option (List UInt8) := none
  compressedSize : Nat := 0
  uncompressedSize : Nat := 0
  dataOffset : Nat := 0
  compressionInfo : DcxCompressionInfo := .zlib

/-! ## Hashes of names -/

/-- The character that `sf_path_hash` hashes for a byte. -/
def pathHashByte (b : UInt8) : UInt8 :=
  let c := if 0x41 ≤ b && b ≤ 0x5A then b - 0x41 + 0x61 else b
  if c = 0x5C then 0x2F else c

/-- `sf_path_hash`. -/
def pathHash (path : List UInt8) : UInt32 :=
  let start : UInt32 := if path.head? = some 0x2F || path.head? = some 0x5C then 0 else 0x2F
  path.foldl (fun acc b => acc * 37 + (pathHashByte b).toUInt32) start

/-- The loop of `sf_is_prime` from the candidate divisor `i` on; a number has fewer divisors than its fuel. -/
def isPrimeFrom (candidate : Nat) : Nat → Nat → Bool
  | 0, _ => true
  | fuel + 1, i =>
    if i * i ≤ candidate then
      if candidate % i = 0 then false else isPrimeFrom candidate fuel (i + 2)
    else true

/-- `sf_is_prime`. -/
def sfIsPrime (candidate : Nat) : Bool :=
  if candidate < 2 then false
  else if candidate = 2 then true
  else if candidate % 2 = 0 then false
  else isPrimeFrom candidate candidate 3

/-- The loop of `sfi_binder_hash_table_group_count`. -/
def groupCountFrom : Nat → Nat → Nat
  | 0, _ => 0
  | fuel + 1, p => if sfIsPrime p then p else groupCountFrom fuel (p + 1)

/-- `sfi_binder_hash_table_group_count`: the first prime from the start up to 100000. -/
def binderHashTableGroupCount (fileCount : Nat) : Nat :=
  let start := fileCount / 7 % 2 ^ 32
  groupCountFrom (100001 - start) start

/-- `sfi_path_hash_t`. -/
structure PathHash where
  hash : UInt32
  index : Int32

/-- `sfi_path_hash_cmp`. -/
def pathHashCmp (a b : PathHash) : Int := if a.hash < b.hash then -1 else if b.hash < a.hash then 1 else 0

def PathHash.group (groupCount : Nat) (h : PathHash) : Nat := h.hash.toNat % groupCount

/-- The hash of every file. -/
def binderHashes (files : List BinderFile) : List PathHash :=
  files.mapIdx fun i file => ⟨pathHash (file.nameUtf8.getD []), Int32.ofNat i⟩

/-- How many hashes each bucket has. -/
def bucketLengths (groupCount : Nat) (hashes : List PathHash) : List UInt32 :=
  hashes.foldl (fun lengths h => lengths.modify (h.group groupCount) (· + 1)) (List.replicate groupCount 0)

/-- Where each bucket starts, from `cur` on. -/
def bucketOffsets : UInt32 → List UInt32 → List UInt32
  | _, [] => []
  | cur, length :: lengths => cur :: bucketOffsets (cur + length) lengths

/-- The hashes in the order of their buckets; each goes to the cursor of its bucket. -/
def orderHashes (groupCount : Nat) (offsets : List UInt32) (hashes : List PathHash) : List PathHash :=
  (hashes.foldl
    (fun (cursor, ordered) h =>
      let g := h.group groupCount
      (cursor.modify g (· + 1), ordered.set (offsets.getD g 0 + cursor.getD g 0).toNat h))
    (List.replicate groupCount (0 : UInt32), List.replicate hashes.length (⟨0, 0⟩ : PathHash))).2

/-- The length and the start of every bucket, as the offsets give them. -/
def hashGroups (fileCount : Nat) : UInt32 → List UInt32 → List (UInt32 × UInt32)
  | _, [] => []
  | cur, _ :: rest =>
    let len := (match rest with
      | next :: _ => next
      | [] => UInt32.ofNat fileCount) - cur
    (len, cur) :: hashGroups fileCount (cur + len) rest

/-- Sort every bucket that has more than one hash. -/
def sortBuckets (qs : Qsort) (ordered : List PathHash) (groups : List (UInt32 × UInt32)) : List PathHash :=
  groups.foldl
    (fun ordered (len, cur) =>
      if 1 < len then
        ordered.take cur.toNat ++ qs.sort pathHashCmp ((ordered.drop cur.toNat).take len.toNat)
          ++ ordered.drop (cur.toNat + len.toNat)
      else ordered)
    ordered

/-! ## Reading -/

section Reading

open BinaryReader

variable (os : Win32) (customAllocator : Bool)

/-- `sfi_binder_read_format`, which does not say that it could not read. -/
def binderReadFormat (bitBigEndian : Bool) : ReadM UInt8 := do
  match ← attempt readU8 with
  | .ok raw => pure (binderFormatOfRaw bitBigEndian raw)
  | .error _ => pure 0

/-- `sfi_binder_read_file_flags`. -/
def binderReadFileFlags (bitBigEndian : Bool) : ReadM UInt8 := do
  match ← attempt readU8 with
  | .ok raw => pure (binderFileFlagsRaw bitBigEndian raw)
  | .error _ => pure 0

/-- The offset of the data, of either width. -/
def binderReadDataOffset (f : UInt8) : ReadM Nat :=
  if binderFormatHasLongOffsets f then do
    let off ← readI64
    pure off.toUInt64.toNat
  else do
    let off ← readU32
    pure off.toNat

/-- A name is copied to the allocator of the archive if that is not the default one. -/
def binderCopyName (name : List UInt8) : ReadM (Option (List UInt8)) := do
  let _ ← given customAllocator [] (onHeap Heap.alloc)
  pure (some name)

/-- The name that a header of BND3 leads to. -/
def binder3ReadName : ReadM (Option (List UInt8)) := do
  let nameOffset ← readI32
  let name ← getShiftJis os nameOffset.toInt
  binderCopyName customAllocator name

/-- `sfi_binder3_read_file_header`. -/
def binder3ReadFileHeader (f : UInt8) (bitBigEndian : Bool) : ReadM BinderFileHeader := do
  let flags ← binderReadFileFlags bitBigEndian
  let _ ← assertU8 [0]
  let _ ← assertU8 [0]
  let _ ← assertU8 [0]
  let compressedSize ← readI32
  let dataOffset ← binderReadDataOffset f
  let id ← given (binderFormatHasIds f) (-1) readI32
  let name ← given (binderFormatHasNames f) none (binder3ReadName os customAllocator)
  let uncompressed ← given (binderFormatHasCompression f) 0 readI32
  pure { flags := flags, id := id, nameUtf8 := name, compressedSize := compressedSize.toUInt32.toNat,
         uncompressedSize := uncompressed.toUInt32.toNat, dataOffset := dataOffset }

/-- The name that a header of BND4 leads to. -/
def binder4ReadName (unicode : Bool) : ReadM (Option (List UInt8)) := do
  let nameOffset ← readU32
  let name ← if unicode then getUtf16 os nameOffset.toNat else getShiftJis os nameOffset.toNat
  binderCopyName customAllocator name

/-- The id of a format that has nothing but names. -/
def binder4ReadNames1Id : ReadM Int32 := do
  let id ← readI32
  let _ ← assertI32 [0]
  pure id

/-- `sfi_binder4_read_file_header`. -/
def binder4ReadFileHeader (f : UInt8) (bitBigEndian unicode : Bool) : ReadM BinderFileHeader := do
  let flags ← binderReadFileFlags bitBigEndian
  let _ ← assertU8 [0]
  let _ ← assertU8 [0]
  let _ ← assertU8 [0]
  let _ ← assertI32 [-1]
  let compressed ← readI64
  let uncompressed ← given (binderFormatHasCompression f) 0 readI64
  let dataOffset ← binderReadDataOffset f
  let id ← given (binderFormatHasIds f) (-1) readI32
  let name ← given (binderFormatHasNames f) none (binder4ReadName os customAllocator unicode)
  let id ← given (f == binderFormatNames1) id binder4ReadNames1Id
  pure { flags := flags, id := id, nameUtf8 := name, compressedSize := compressed.toUInt64.toNat,
         uncompressedSize := uncompressed.toUInt64.toNat, dataOffset := dataOffset }

/-- `sfi_binder_hash_table_assert`. -/
def binderHashTableAssert : ReadM Unit := do
  let _ ← readI64
  let _ ← readI32
  let _ ← assertU8 [0x10]
  let _ ← assertU8 [0x08]
  let _ ← assertU8 [0x08]
  let _ ← assertU8 [0x00]

/-- The hash table that the headers of BND4 and BXF4 lead to: it is at its offset if there is one, and without one the offset is zero. The step back
    is made whether the table is one or not. -/
def binder4ReadHashTable (extended : UInt8) (hashTableOffset : Int64) : ReadM Unit :=
  if extended = 4 then do
    stepIn hashTableOffset.toInt
    let r ← attempt binderHashTableAssert
    let back ← attempt stepOut
    lift r
    lift back
  else check (hashTableOffset = 0) .badMagic

/-- What is stored for a file. -/
def binderReadStored (h : BinderFileHeader) : ReadM (List UInt8) := do
  let _ ← onHeap Heap.alloc
  getBytes (Int64.ofNat h.dataOffset).toInt h.compressedSize

/-- `bnd3_extract_file_data`, `bnd4_extract_file_data` and `bxf4_extract_file_data`, which are alike: the data
    of a file and how it was compressed. -/
def binderExtractFileData (codecs : Codecs) (h : BinderFileHeader) :
    ReadM (List UInt8 × DcxCompressionInfo) := do
  let raw ← given (0 < h.compressedSize) [] (binderReadStored h)
  if binderFileIsCompressed h.flags then onHeap (dcxDecompressFromBuffer codecs raw)
  else pure (raw, .zlib)

/-- The room that `bulk_copy_names` asks for; the names it copies are in memory already. -/
def binderBulkCopyNames (headers : List BinderFileHeader) : ReadM Unit := do
  let _ ← given (headers.any fun h => h.nameUtf8.isSome) [] (onHeap Heap.alloc)

/-- The files that an archive without any has room for, and their names. -/
def binderAllocFiles (headers : List BinderFileHeader) : ReadM Unit :=
  given (!headers.isEmpty) () do
    let _ ← onHeap Heap.alloc
    binderBulkCopyNames headers

/-- The loop over the files in `populate_from_reader`; `extract` gets the data of one. -/
def binderReadFiles (extract : BinderFileHeader → ReadM (List UInt8 × DcxCompressionInfo)) :
    List BinderFileHeader → ReadM (List BinderFile)
  | [] => pure []
  | h :: headers => do
    let (data, info) ← extract h
    let files ← binderReadFiles extract headers
    pure ({ id := h.id, nameUtf8 := h.nameUtf8, data := data, flags := h.flags,
            compressionInfo := info } :: files)

/-- The headers of the files; there is no room to ask for if there are none. -/
def binderReadFileHeaders (header : ReadM BinderFileHeader) (fileCount : Int32) :
    ReadM (List BinderFileHeader) := do
  check (0 ≤ fileCount.toInt) .outOfRange
  let _ ← given (0 < fileCount.toInt) [] (onHeap Heap.alloc)
  readEach header fileCount.toInt.toNat

end Reading

/-! ## Writing -/

section Writing

open BinaryWriter

variable (os : Win32)

/-- `sfi_binder_write_format`, which does not say that it could not write. -/
def binderWriteFormat (f : UInt8) (bitBigEndian : Bool) : WriteM Unit := do
  let _ ← attempt (writeU8 (binderFormatRaw bitBigEndian f))

/-- `sfi_binder_write_file_flags`. -/
def binderWriteFileFlags (flags : UInt8) (bitBigEndian : Bool) : WriteM Unit := do
  let _ ← attempt (writeU8 (binderFileFlagsRaw bitBigEndian flags))

/-- `sfi_binder_get_bnd4_file_header_size`. -/
def binderGetBnd4FileHeaderSize (f : UInt8) : Nat :=
  0x10 + (if binderFormatHasLongOffsets f then 8 else 4) + (if binderFormatHasCompression f then 8 else 0)
    + (if binderFormatHasIds f then 4 else 0) + (if binderFormatHasNames f then 4 else 0)
    + (if f == binderFormatNames1 then 8 else 0)

/-- The header that the archives write for a file. -/
def BinderFile.header (file : BinderFile) : BinderFileHeader :=
  { flags := file.flags, id := file.id, nameUtf8 := file.nameUtf8, uncompressedSize := file.data.length,
    compressionInfo := file.compressionInfo }

/-- The place of the offset of the data, of either width. -/
def binderReserveDataOffset (f : UInt8) (i : Nat) : WriteM Unit :=
  if binderFormatHasLongOffsets f then reserveI64 (label "FileDataOffset" i)
  else reserveU32 (label "FileDataOffset" i)

def binderFillDataOffset (f : UInt8) (i dataOffset : Nat) : WriteM Unit :=
  if binderFormatHasLongOffsets f then fillI64 (label "FileDataOffset" i) (Int64.ofNat dataOffset)
  else fillU32 (label "FileDataOffset" i) (UInt32.ofNat dataOffset)

/-- `sfi_binder3_write_file_header`. -/
def binder3WriteFileHeader (f : UInt8) (bitBigEndian : Bool) (h : BinderFileHeader) (i : Nat) :
    WriteM Unit := do
  binderWriteFileFlags h.flags bitBigEndian
  writeU8 0
  writeU8 0
  writeU8 0
  reserveI32 (label "FileCompressedSize" i)
  binderReserveDataOffset f i
  given (binderFormatHasIds f) () (writeI32 h.id)
  given (binderFormatHasNames f) () (reserveI32 (label "FileNameOffset" i))
  given (binderFormatHasCompression f) () (reserveI32 (label "FileUncompressedSize" i))

/-- `sfi_write_file_data_core`: where the data starts and how much is stored. -/
def writeFileDataCore (codecs : Codecs) (h : BinderFileHeader) (raw : List UInt8) : WriteM (Nat × Nat) := do
  given (0 < h.uncompressedSize) () (pad 0x10)
  let dataOffset ← peek position
  if binderFileIsCompressed h.flags then do
    let compressed ← onHeap (dcxCompressToBuffer codecs raw h.compressionInfo)
    writeBytes compressed
    pure (dataOffset, compressed.length)
  else do
    given (0 < h.uncompressedSize) () (writeBytes raw)
    pure (dataOffset, h.uncompressedSize)

/-- `sfi_binder3_write_file_data`. -/
def binder3WriteFileData (codecs : Codecs) (f : UInt8) (h : BinderFileHeader) (raw : List UInt8) (i : Nat) :
    WriteM Unit := do
  let (dataOffset, compressed) ← writeFileDataCore codecs h raw
  fillI32 (label "FileCompressedSize" i) (Int32.ofNat compressed)
  given (binderFormatHasCompression f) ()
    (fillI32 (label "FileUncompressedSize" i) (Int32.ofNat h.uncompressedSize))
  binderFillDataOffset f i dataOffset

/-- `sfi_binder3_write_file_name`. -/
def binder3WriteFileName (f : UInt8) (h : BinderFileHeader) (i : Nat) : WriteM Unit :=
  given (binderFormatHasNames f) () do
    let pos ← peek position
    fillI32 (label "FileNameOffset" i) (Int32.ofNat pos)
    writeShiftJis os (some (h.nameUtf8.getD [])) true

/-- The id of a format that has nothing but names. -/
def binder4WriteNames1Id (id : Int32) : WriteM Unit := do
  writeI32 id
  writeI32 0

/-- `sfi_binder4_write_file_header`. -/
def binder4WriteFileHeader (f : UInt8) (bitBigEndian : Bool) (h : BinderFileHeader) (i : Nat) :
    WriteM Unit := do
  binderWriteFileFlags h.flags bitBigEndian
  writeU8 0
  writeU8 0
  writeU8 0
  writeI32 (-1)
  reserveI64 (label "FileCompressedSize" i)
  given (binderFormatHasCompression f) () (reserveI64 (label "FileUncompressedSize" i))
  binderReserveDataOffset f i
  given (binderFormatHasIds f) () (writeI32 h.id)
  given (binderFormatHasNames f) () (reserveI32 (label "FileNameOffset" i))
  given (f == binderFormatNames1) () (binder4WriteNames1Id h.id)

/-- What the header of a file says of its data. -/
def binder4FillFileData (f : UInt8) (h : BinderFileHeader) (i : Nat) (place : Nat × Nat) : WriteM Unit := do
  fillI64 (label "FileCompressedSize" i) (Int64.ofNat place.2)
  given (binderFormatHasCompression f) ()
    (fillI64 (label "FileUncompressedSize" i) (Int64.ofNat h.uncompressedSize))
  binderFillDataOffset f i place.1

/-- `sfi_binder4_write_file_data`. -/
def binder4WriteFileData (codecs : Codecs) (f : UInt8) (h : BinderFileHeader) (raw : List UInt8) (i : Nat) :
    WriteM Unit := do
  let place ← writeFileDataCore codecs h raw
  binder4FillFileData f h i place

/-- `sfi_binder4_write_file_name`. -/
def binder4WriteFileName (f : UInt8) (unicode : Bool) (h : BinderFileHeader) (i : Nat) : WriteM Unit :=
  given (binderFormatHasNames f) () do
    let pos ← peek position
    fillI32 (label "FileNameOffset" i) (Int32.ofNat pos)
    if unicode then writeUtf16 os (some (h.nameUtf8.getD [])) true
    else writeShiftJis os (some (h.nameUtf8.getD [])) true

/-- Two blocks, the second of which is empty if there are no files. -/
def binderAllocPair (fileCount : Nat) : WriteM Unit := do
  let groups ← attempt (onHeap Heap.alloc)
  let hashes ← attempt (onHeap Heap.alloc)
  check (groups.toBool ∧ (hashes.toBool ∨ fileCount = 0)) .oom

def writeHashGroup (_ : Nat) (group : UInt32 × UInt32) : WriteM Unit := do
  writeI32 group.1.toInt32
  writeI32 group.2.toInt32

def writePathHash (_ : Nat) (h : PathHash) : WriteM Unit := do
  writeU32 h.hash
  writeI32 h.index

/-- `sfi_binder_hash_table_write`. -/
def binderHashTableWrite (qs : Qsort) (files : List BinderFile) : WriteM Unit := do
  let groupCount := binderHashTableGroupCount files.length
  check (groupCount ≠ 0) .internal
  binderAllocPair files.length
  let hashes := binderHashes files
  let lengths := bucketLengths groupCount hashes
  binderAllocPair files.length
  let offsets := bucketOffsets 0 lengths
  let groups := hashGroups files.length 0 offsets
  let ordered := sortBuckets qs (orderHashes groupCount offsets hashes) groups
  reserveI64 (cstr "HashesOffset")
  writeU32 (UInt32.ofNat groupCount)
  writeU8 0x10
  writeU8 0x08
  writeU8 0x08
  writeU8 0x00
  forIndexed writeHashGroup 0 groups
  let pos ← peek position
  fillI64 (cstr "HashesOffset") (Int64.ofNat pos)
  forIndexed writePathHash 0 ordered

/-- The hash table of the names, if the archive has one. -/
def binder4WriteHashTable (qs : Qsort) (extended : UInt8) (files : List BinderFile) : WriteM Unit :=
  if extended = 4 then do
    pad 0x8
    let pos ← peek position
    fillI64 (cstr "HashTableOffset") (Int64.ofNat pos)
    binderHashTableWrite qs files
  else fillI64 (cstr "HashTableOffset") 0

/-- The headers that an archive writes; there is no room to ask for if it has no files. -/
def binderAllocHeaders (files : List BinderFile) : WriteM Unit := do
  let _ ← given (!files.isEmpty) [] (onHeap Heap.alloc)

end Writing

end SoulsFormats
