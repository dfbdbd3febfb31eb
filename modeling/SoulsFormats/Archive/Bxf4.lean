import SoulsFormats.Archive.BinderCommon
import SoulsFormats.Core.FilePair

set_option autoImplicit false

/-! # BXF4 archives

The reader and the writer of `bxf4.c`. The archive is split: the first file has the headers of the files, their
names and the hash table of the names, the second has a header of its own and the data. -/

namespace SoulsFormats

open Bytes Fallible

/-- `sf_bxf4_t`; the version may be a null pointer. -/
structure Bxf4 where
  files : List BinderFile
  version : Option (List UInt8)
  format : UInt8
  unk04 : Bool
  unk05 : Bool
  bigEndian : Bool
  bitBigEndian : Bool
  unicode : Bool
  extended : UInt8
deriving DecidableEq

section Reading

open BinaryReader

variable (os : Win32) (customAllocator : Bool)

/-- `bxf4_read_bdf_header`, which keeps nothing of what it reads. -/
def bxf4ReadBdfHeader : ReadM Unit := do
  assertAscii (cstr "BDF4")
  let _ ← readBool
  let _ ← readBool
  let _ ← assertU8 [0]
  let _ ← assertU8 [0]
  let _ ← assertU8 [0]
  let bigEndian ← readBool
  setBigEndian bigEndian
  let _ ← readBool
  let _ ← assertU8 [0]
  let _ ← assertI32 [0]
  let _ ← defineAssertMulti readI64 [0x30, 0x40]
  let _ ← readFixStr os 8
  let _ ← defineAssertMulti readI64 [0]
  let _ ← defineAssertMulti readI64 [0]

/-- `bxf4_read_bhf_header`: the archive without its files, and their headers. -/
def bxf4ReadBhfHeader : ReadM (Bxf4 × List BinderFileHeader) := do
  assertAscii (cstr "BHF4")
  let unk04 ← readBool
  let unk05 ← readBool
  let _ ← assertU8 [0]
  let _ ← assertU8 [0]
  let _ ← assertU8 [0]
  let bigEndian ← readBool
  let notBitBigEndian ← readBool
  let _ ← assertU8 [0]
  setBigEndian bigEndian
  let fileCount ← readI32
  let _ ← defineAssertMulti readI64 [0x40]
  let version ← readFixStr os 8
  let fileHeaderSize ← readI64
  let _ ← defineAssertMulti readI64 [0]
  let unicode ← readBool
  let format ← binderReadFormat (!notBitBigEndian)
  let extended ← assertU8 [0, 4]
  let _ ← assertU8 [0]
  check (fileHeaderSize = Int64.ofNat (binderGetBnd4FileHeaderSize format)) .badMagic
  let _ ← assertI32 [0]
  let hashTableOffset ← readI64
  binder4ReadHashTable extended hashTableOffset
  let headers ←
    binderReadFileHeaders (binder4ReadFileHeader os customAllocator format (!notBitBigEndian) unicode) fileCount
  pure ({ files := [], version := some version, format := format, unk04 := unk04, unk05 := unk05,
          bigEndian := bigEndian, bitBigEndian := !notBitBigEndian, unicode := unicode,
          extended := extended }, headers)

/-- `bxf4_extract_file_data`. -/
def bxf4ExtractFileData (codecs : Codecs) (h : BinderFileHeader) : ReadM (List UInt8 × DcxCompressionInfo) :=
  binderExtractFileData codecs h

/-- The files that an archive without any has room for. -/
def bxf4AllocFiles (headers : List BinderFileHeader) : ReadM Unit := do
  let _ ← given (!headers.isEmpty) [] (onHeap Heap.alloc)

/-- `bxf4_populate_from_readers`; here the names are copied after the data has been read. -/
def bxf4PopulateFromReaders (codecs : Codecs) : ReadPairM Bxf4 := do
  ReaderPair.onBdt (bxf4ReadBdfHeader os)
  let (b, headers) ← ReaderPair.onBhd (bxf4ReadBhfHeader os customAllocator)
  ReaderPair.onBhd (bxf4AllocFiles headers)
  let files ← ReaderPair.onBdt (binderReadFiles (bxf4ExtractFileData codecs) headers)
  ReaderPair.onBhd (binderBulkCopyNames headers)
  pure { b with files := files }

/-- `sf_bxf4_read_from_memory`; the archive that is filled in is allocated before it is read, with a
    version. -/
def bxf4ReadFromMemory (codecs : Codecs) (flexible : Bool) (bhd bdt : List UInt8) :
    Fallible Heap SfError Bxf4 :=
  ReaderPair.onMemory bhd bdt flexible do
    ReaderPair.onBhd (openDecompressed codecs)
    ReaderPair.onBdt (openDecompressed codecs)
    let _ ← ReaderPair.onHeap Heap.alloc
    let _ ← ReaderPair.onHeap Heap.alloc
    bxf4PopulateFromReaders os customAllocator codecs

end Reading

section Writing

open BinaryWriter

variable (os : Win32) (codecs : Codecs) (qs : Qsort)

/-- `bxf4_write_bdf_header`. -/
def bxf4WriteBdfHeader (b : Bxf4) : WriteM Unit := do
  setBigEndian b.bigEndian
  writeAscii os (some (cstr "BDF4")) false
  writeBool b.unk04
  writeBool b.unk05
  writeU8 0
  writeU8 0
  writeU8 0
  writeBool b.bigEndian
  writeBool (!b.bitBigEndian)
  writeU8 0
  writeI32 0
  writeI64 0x30
  writeFixStr os (some (b.version.getD [])) 8 0
  writeI64 0
  writeI64 0

/-- `bxf4_write_bhf_header`. -/
def bxf4WriteBhfHeader (b : Bxf4) : WriteM Unit := do
  setBigEndian b.bigEndian
  writeAscii os (some (cstr "BHF4")) false
  writeBool b.unk04
  writeBool b.unk05
  writeU8 0
  writeU8 0
  writeU8 0
  writeBool b.bigEndian
  writeBool (!b.bitBigEndian)
  writeU8 0
  writeI32 (Int32.ofNat b.files.length)
  writeI64 0x40
  writeFixStr os (some (b.version.getD [])) 8 0
  writeI64 (Int64.ofNat (binderGetBnd4FileHeaderSize b.format))
  writeI64 0
  writeBool b.unicode
  binderWriteFormat b.format b.bitBigEndian
  writeU8 b.extended
  writeU8 0
  writeI32 0
  reserveI64 (cstr "HashTableOffset")
  forIndexed (fun i file => binder4WriteFileHeader b.format b.bitBigEndian file.header i) 0 b.files
  forIndexed (fun i file => binder4WriteFileName os b.format b.unicode file.header i) 0 b.files
  binder4WriteHashTable qs b.extended b.files

/-- `bxf4_write_file_data`: the data goes to one file and what is said of it to the other. -/
def bxf4WriteFileData (f : UInt8) (i : Nat) (file : BinderFile) : WritePairM Unit := do
  let place ← WriterPair.onBdt (writeFileDataCore codecs file.header file.data)
  WriterPair.onBhd (binder4FillFileData f file.header i place)

/-- `bxf4_write_to_writers`. -/
def bxf4WriteToWriters (b : Bxf4) : WritePairM Unit := do
  WriterPair.onBhd (binderAllocHeaders b.files)
  WriterPair.onBdt (bxf4WriteBdfHeader os b)
  WriterPair.onBhd (bxf4WriteBhfHeader os qs b)
  forIndexed (bxf4WriteFileData codecs b.format) 0 b.files

/-- `sf_bxf4_write_to_memory`: the file of the headers and that of the data. -/
def bxf4WriteToMemory (b : Bxf4) : Fallible Heap SfError (List UInt8 × List UInt8) :=
  WriterPair.writeToMemory (bxf4WriteToWriters os codecs qs b)

end Writing

end SoulsFormats
