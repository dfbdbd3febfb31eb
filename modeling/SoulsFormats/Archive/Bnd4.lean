import SoulsFormats.Archive.BinderCommon

set_option autoImplicit false

/-! # BND4 archives

The reader and the writer of `bnd4.c`, and the reader that leaves the data of the files where it is until it
is asked for. An archive may have a table of the hashes of its names, which is only looked at, not read. -/

namespace SoulsFormats

open Bytes Fallible

/-- `sf_bnd4_t`; the version may be a null pointer. -/
structure Bnd4 where
  files : List BinderFile
  version : Option (List UInt8)
  format : UInt8
  unk04 : Bool
  unk05 : Bool
  bigEndian : Bool
  bitBigEndian : Bool
  unicode : Bool
  extended : UInt8
deriving DecidableEq

section Reading

open BinaryReader

variable (os : Win32) (customAllocator : Bool)

/-- `bnd4_read_header`: the archive without its files, and their headers. -/
def bnd4ReadHeader : ReadM (Bnd4 × List BinderFileHeader) := do
  assertAscii (cstr "BND4")
  let unk04 ← readBool
  let unk05 ← readBool
  let _ ← assertU8 [0]
  let _ ← assertU8 [0]
  let _ ← assertU8 [0]
  let bigEndian ← readBool
  let notBitBigEndian ← readBool
  let _ ← assertU8 [0]
  setBigEndian bigEndian
  let fileCount ← readI32
  let _ ← defineAssertMulti readI64 [0x40]
  let version ← readFixStr os 8
  let fileHeaderSize ← readI64
  let _ ← readI64
  let unicode ← readBool
  let format ← binderReadFormat (!notBitBigEndian)
  let extended ← assertU8 [0, 1, 4, 0x80]
  let _ ← assertU8 [0]
  let _ ← assertI32 [0]
  let hashTableOffset ← readI64
  binder4ReadHashTable extended hashTableOffset
  check (fileHeaderSize = Int64.ofNat (binderGetBnd4FileHeaderSize format)) .badMagic
  let headers ←
    binderReadFileHeaders (binder4ReadFileHeader os customAllocator format (!notBitBigEndian) unicode) fileCount
  pure ({ files := [], version := some version, format := format, unk04 := unk04, unk05 := unk05,
          bigEndian := bigEndian, bitBigEndian := !notBitBigEndian, unicode := unicode,
          extended := extended }, headers)

/-- `bnd4_extract_file_data`. -/
def bnd4ExtractFileData (codecs : Codecs) (h : BinderFileHeader) : ReadM (List UInt8 × DcxCompressionInfo) :=
  binderExtractFileData codecs h

/-- `bnd4_populate_from_reader`. -/
def bnd4PopulateFromReader (codecs : Codecs) : ReadM Bnd4 := do
  let (b, headers) ← bnd4ReadHeader os customAllocator
  binderAllocFiles headers
  let files ← binderReadFiles (bnd4ExtractFileData codecs) headers
  pure { b with files := files }

/-- `sf_bnd4_read_from_memory`; the archive that is filled in is allocated before it is read, with a
    version. -/
def bnd4ReadFromMemory (codecs : Codecs) (flexible : Bool) (data : List UInt8) :
    Fallible Heap SfError Bnd4 :=
  onMemory data false flexible (withDecompressedReader codecs do
    let _ ← onHeap Heap.alloc
    let _ ← onHeap Heap.alloc
    bnd4PopulateFromReader os customAllocator codecs)

/-- What `sf_bnd4_reader_t` shows of a file. There is no data, and the size is the one of the header. -/
structure Bnd4ReaderFile where
  id : Int32
  nameUtf8 : Option (List UInt8)
  size : Nat
  flags : UInt8
  compressionInfo : DcxCompressionInfo

/-- `sf_bnd4_reader_t`; `props` is an archive without its files. -/
structure Bnd4Reader where
  props : Bnd4
  headers : List BinderFileHeader
  files : List Bnd4ReaderFile
  br : BinaryReader

/-- What the reader shows of the file of a header. -/
def BinderFileHeader.readerFile (h : BinderFileHeader) : Bnd4ReaderFile :=
  { id := h.id, nameUtf8 := h.nameUtf8, size := h.uncompressedSize, flags := h.flags
    compressionInfo := h.compressionInfo }

/-- `sf_bnd4_reader_open` on a file with the bytes `data`, which are read as a whole first. -/
def bnd4ReaderOpen (codecs : Codecs) (flexible : Bool) (data : List UInt8) :
    Fallible Heap SfError Bnd4Reader := do
  let _ ← Heap.alloc
  let _ ← given (0 < data.length) [] Heap.alloc
  onMemory data false flexible do
    openDecompressed codecs
    let _ ← onHeap Heap.alloc
    let (props, headers) ← bnd4ReadHeader os customAllocator
    binderAllocFiles headers
    let br ← state
    pure { props := props, headers := headers, files := headers.map BinderFileHeader.readerFile, br := br }

/-- `sf_bnd4_reader_read_file_by_index`. -/
def bnd4ReaderReadFileByIndex (codecs : Codecs) (idx : Nat) : Fallible Bnd4Reader SfError (List UInt8) := do
  let r ← state
  match r.headers[idx]? with
  | none => fail .outOfRange
  | some h => do
    let (data, _) ← zoom Bnd4Reader.br (fun br r => { r with br := br }) (bnd4ExtractFileData codecs h)
    pure data

end Reading

section Writing

open BinaryWriter

variable (os : Win32) (codecs : Codecs) (qs : Qsort)

/-- `bnd4_write_to_writer`. -/
def bnd4WriteToWriter (b : Bnd4) : WriteM Unit := do
  setBigEndian b.bigEndian
  writeAscii os (some (cstr "BND4")) false
  writeBool b.unk04
  writeBool b.unk05
  writeU8 0
  writeU8 0
  writeU8 0
  writeBool b.bigEndian
  writeBool (!b.bitBigEndian)
  writeU8 0
  writeI32 (Int32.ofNat b.files.length)
  writeI64 0x40
  writeFixStr os (some (b.version.getD [])) 8 0
  writeI64 (Int64.ofNat (binderGetBnd4FileHeaderSize b.format))
  reserveI64 (cstr "HeadersEnd")
  writeBool b.unicode
  binderWriteFormat b.format b.bitBigEndian
  writeU8 b.extended
  writeU8 0
  writeI32 0
  reserveI64 (cstr "HashTableOffset")
  binderAllocHeaders b.files
  forIndexed (fun i file => binder4WriteFileHeader b.format b.bitBigEndian file.header i) 0 b.files
  forIndexed (fun i file => binder4WriteFileName os b.format b.unicode file.header i) 0 b.files
  binder4WriteHashTable qs b.extended b.files
  let pos ← peek position
  fillI64 (cstr "HeadersEnd") (Int64.ofNat pos)
  forIndexed (fun i file => binder4WriteFileData codecs b.format file.header file.data i) 0 b.files

/-- A sum of two `size_t`, unless it is too large. -/
def estimateAdd (est n : Nat) : Option Nat := if SIZE_MAX < est + n then none else some (est + n)

/-- The names, in the estimate. -/
def bnd4EstimateName (unicode : Bool) (est : Nat) (file : BinderFile) : Option Nat :=
  let perNameChar := if unicode then 2 else 1
  match file.nameUtf8 with
  | none => some est
  | some name =>
    if SIZE_MAX / perNameChar < name.length then none
    else estimateAdd est ((name.length * perNameChar + perNameChar) % 2 ^ 64)

/-- `bnd4_estimate_size`, which ends in `SIZE_MAX` if a sum is too large. -/
def bnd4EstimateSize (b : Bnd4) : Nat :=
  let perFileHeader := binderGetBnd4FileHeaderSize b.format
  let count := b.files.length
  let estimate : Option Nat := do
    guard (count ≤ SIZE_MAX / perFileHeader)
    let est ← b.files.foldlM (bnd4EstimateName b.unicode) ((0x40 + count * perFileHeader) % 2 ^ 64)
    let est ←
      if b.extended = 4 then
        estimateAdd est ((24 + binderHashTableGroupCount count * 8 + count * 8) % 2 ^ 64)
      else some est
    b.files.foldlM (fun est file => estimateAdd est (align16 file.data.length % 2 ^ 64)) est
  estimate.getD SIZE_MAX

/-- `sf_bnd4_write_to_memory`. -/
def bnd4WriteToMemory (b : Bnd4) : Fallible Heap SfError (List UInt8) :=
  writeDetached (bnd4EstimateSize b) false (bnd4WriteToWriter os codecs qs b)

end Writing

end SoulsFormats
