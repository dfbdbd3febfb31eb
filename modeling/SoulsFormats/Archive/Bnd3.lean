import SoulsFormats.Archive.BinderCommon

set_option autoImplicit false

/-! # BND3 archives

The reader and the writer of `bnd3.c`. The byte order of a file is big-endian if its flag or its format
byte says so; the bits of the format byte and of the flags of a file are stored in either order. -/

namespace SoulsFormats

open Bytes Fallible

/-- `sf_bnd3_t`; the version may be a null pointer. -/
structure Bnd3 where
  files : List BinderFile
  version : Option (List UInt8)
  format : UInt8
  bigEndian : Bool
  bitBigEndian : Bool
  unk18 : Int32
  writeFileHeadersEnd : Bool
deriving DecidableEq

section Reading

open BinaryReader

variable (os : Win32) (customAllocator : Bool)

/-- `bnd3_read_header`: the archive without its files, and their headers. -/
def bnd3ReadHeader : ReadM (Bnd3 × List BinderFileHeader) := do
  assertAscii (cstr "BND3")
  let version ← readFixStr os 8
  let bitBigEndian ← getBool 0xE
  let format ← binderReadFormat bitBigEndian
  let be ← readBool
  let _ ← assertBool [bitBigEndian]
  let _ ← assertU8 [0]
  setBigEndian (be || binderFormatForceBigEndian format)
  let fileCount ← readI32
  let headersEnd ← readI32
  let unk18 ← assertI32 [0, Int32.ofInt (-2 ^ 31)]
  let _ ← assertI32 [0]
  let headers ← binderReadFileHeaders (binder3ReadFileHeader os customAllocator format bitBigEndian) fileCount
  pure ({ files := [], version := some version, format := format, bigEndian := be,
          bitBigEndian := bitBigEndian, unk18 := unk18,
          writeFileHeadersEnd := 0 < headersEnd.toInt }, headers)

/-- `bnd3_extract_file_data`. -/
def bnd3ExtractFileData (codecs : Codecs) (h : BinderFileHeader) : ReadM (List UInt8 × DcxCompressionInfo) :=
  binderExtractFileData codecs h

/-- `bnd3_populate_from_reader`. -/
def bnd3PopulateFromReader (codecs : Codecs) : ReadM Bnd3 := do
  let (b, headers) ← bnd3ReadHeader os customAllocator
  binderAllocFiles headers
  let files ← binderReadFiles (bnd3ExtractFileData codecs) headers
  pure { b with files := files }

/-- `sf_bnd3_read_from_memory`; the archive that is filled in is allocated before it is read, with a
    version. -/
def bnd3ReadFromMemory (codecs : Codecs) (flexible : Bool) (data : List UInt8) :
    Fallible Heap SfError Bnd3 :=
  onMemory data false flexible (withDecompressedReader codecs do
    let _ ← onHeap Heap.alloc
    let _ ← onHeap Heap.alloc
    bnd3PopulateFromReader os customAllocator codecs)

end Reading

section Writing

open BinaryWriter

variable (os : Win32) (codecs : Codecs)

/-- `bnd3_write_to_writer`. -/
def bnd3WriteToWriter (b : Bnd3) : WriteM Unit := do
  setBigEndian (b.bigEndian || binderFormatForceBigEndian b.format)
  writeAscii os (some (cstr "BND3")) false
  writeFixStr os (some (b.version.getD [])) 8 0
  binderWriteFormat b.format b.bitBigEndian
  writeBool b.bigEndian
  writeBool b.bitBigEndian
  writeU8 0
  writeI32 (Int32.ofNat b.files.length)
  reserveI32 (cstr "FileHeadersEnd")
  writeI32 b.unk18
  writeI32 0
  binderAllocHeaders b.files
  forIndexed (fun i file => binder3WriteFileHeader b.format b.bitBigEndian file.header i) 0 b.files
  forIndexed (fun i file => binder3WriteFileName os b.format file.header i) 0 b.files
  let pos ← peek position
  fillI32 (cstr "FileHeadersEnd") (if b.writeFileHeadersEnd then Int32.ofNat pos else 0)
  forIndexed (fun i file => binder3WriteFileData codecs b.format file.header file.data i) 0 b.files

/-- `sf_bnd3_write_to_memory`. -/
def bnd3WriteToMemory (b : Bnd3) : Fallible Heap SfError (List UInt8) :=
  writeToMemory false (bnd3WriteToWriter os codecs b)

end Writing

end SoulsFormats
