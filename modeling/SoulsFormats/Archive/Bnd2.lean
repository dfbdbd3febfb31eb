import SoulsFormats.Compression.DecompressedReader
import SoulsFormats.Core.Layout

set_option autoImplicit false

/-! # BND2 archives

The reader and the writer of `bnd2.c`. What a file is called depends on the path mode: it has no name but
its id, a name, a name with a drive, or a name below the base directory of the archive. -/

namespace SoulsFormats

open Bytes Fallible

/-- `SF_BND2_FILE_PATH_MODE_*`. -/
def bnd2Nameless : UInt8 := 0
def bnd2FileName : UInt8 := 1
def bnd2FullPath : UInt8 := 2
def bnd2BaseDirectory : UInt8 := 3

/-- `sf_bnd2_file_t`; a name may be a null pointer. -/
structure Bnd2File where
  id : Int32
  nameUtf8 : Option (List UInt8)
  data : List UInt8
deriving DecidableEq, Repr

/-- `sf_bnd2_t`. -/
structure Bnd2 where
  headerInfoFlags : UInt8
  fileInfoFlags : UInt8
  unk06 : UInt8
  unk07 : UInt8
  fileVersion : Int32
  alignmentSize : UInt16
  filePathMode : UInt8
  unk1b : UInt8
  baseDirectory : Option (List UInt8)
  files : List Bnd2File
deriving DecidableEq, Repr

/-- `sf_bnd2_file_header_t`. -/
structure Bnd2FileHeader where
  id : Int32
  nameUtf8 : List UInt8
  offset : Int32
  size : Int32

/-- The flag `SF_BND2_FILE_INFO_NAME_OFFSET`. -/
def bnd2HasNameOffset (fileInfoFlags : UInt8) : Bool := fileInfoFlags &&& 0x08 != 0

/-- What `snprintf` prints for `%d`. -/
def decimalInt (i : Int) : List UInt8 := if i < 0 then 0x2D :: decimal i.natAbs else decimal i.natAbs

/-! ## Reading -/

section Reading

open BinaryReader

variable (os : Win32)

/-- The name of a file, which its header leads to. -/
def bnd2ReadName (fileInfoFlags filePathMode : UInt8) (id : Int32) : ReadM (List UInt8) :=
  if bnd2HasNameOffset fileInfoFlags then do
    let nameOffset ← readI32
    if filePathMode = bnd2Nameless then do
      let _ ← onHeap Heap.alloc
      pure (decimalInt id.toInt)
    else do
      check (0 ≤ nameOffset.toInt) .outOfRange
      getShiftJis os nameOffset.toInt
  else do
    let _ ← onHeap Heap.alloc
    pure []

/-- The loop over the headers in `bnd2_read_header`. -/
def bnd2ReadFileHeader (fileInfoFlags filePathMode : UInt8) : ReadM Bnd2FileHeader := do
  let id ← readI32
  let offset ← readI32
  let size ← readI32
  check (0 ≤ offset.toInt ∧ 0 ≤ size.toInt) .outOfRange
  let name ← bnd2ReadName os fileInfoFlags filePathMode id
  pure { id := id, nameUtf8 := name, offset := offset, size := size }

def bnd2ReadBaseDirectory (fileInfoFlags filePathMode : UInt8) (baseDirOffset : Int32) :
    ReadM (List UInt8) :=
  if filePathMode = bnd2BaseDirectory ∧ bnd2HasNameOffset fileInfoFlags then
    getShiftJis os baseDirOffset.toInt
  else do
    let _ ← onHeap Heap.alloc
    pure []

/-- The word that stands in the place of the name offsets. -/
def bnd2AssertNoNames (fileInfoFlags : UInt8) : ReadM Unit :=
  if bnd2HasNameOffset fileInfoFlags then pure ()
  else do
    let _ ← defineAssertMulti readU32 [0]

/-- `bnd2_read_header`: the archive without its files, and their headers. -/
def bnd2ReadHeader : ReadM (Bnd2 × List Bnd2FileHeader) := do
  setBigEndian false
  assertAscii (cstr "BND")
  let _ ← assertU8 [0]
  let headerInfoFlags ← readU8
  let fileInfoFlags ← readU8
  let unk06 ← readU8
  let unk07 ← readU8
  let fileVersion ← readI32
  skip 4
  let fileCount ← readI32
  let baseDirOffset ← readI32
  let alignmentSize ← readU16
  let filePathMode ← readEnum8 [0, 1, 2, 3]
  let unk1b ← assertU8 [0, 1]
  let _ ← defineAssertMulti readU32 [0]
  bnd2AssertNoNames fileInfoFlags
  check (0 ≤ fileCount.toInt ∧ 0 ≤ baseDirOffset.toInt) .outOfRange
  let baseDirectory ← bnd2ReadBaseDirectory os fileInfoFlags filePathMode baseDirOffset
  if 0 < fileCount.toInt then do
    let _ ← onHeap Heap.alloc
  let headers ← readEach (bnd2ReadFileHeader os fileInfoFlags filePathMode) fileCount.toInt.toNat
  pure ({ headerInfoFlags := headerInfoFlags, fileInfoFlags := fileInfoFlags, unk06 := unk06,
          unk07 := unk07, fileVersion := fileVersion, alignmentSize := alignmentSize,
          filePathMode := filePathMode, unk1b := unk1b, baseDirectory := some baseDirectory,
          files := [] }, headers)

/-- The data that a header leads to. -/
def bnd2ReadData (header : Bnd2FileHeader) : ReadM Bnd2File :=
  if 0 < header.size.toInt then do
    let _ ← onHeap Heap.alloc
    let data ← getBytes header.offset.toInt header.size.toInt.toNat
    pure { id := header.id, nameUtf8 := some header.nameUtf8, data := data }
  else pure { id := header.id, nameUtf8 := some header.nameUtf8, data := [] }

def bnd2ReadFiles : List Bnd2FileHeader → ReadM (List Bnd2File)
  | [] => pure []
  | header :: headers => do
    let file ← bnd2ReadData header
    let files ← bnd2ReadFiles headers
    pure (file :: files)

/-- `bnd2_populate_from_reader`. -/
def bnd2PopulateFromReader : ReadM Bnd2 := do
  let (b, headers) ← bnd2ReadHeader os
  if headers ≠ [] then do
    -- the files and the pool of their names
    let _ ← onHeap Heap.alloc
    let _ ← onHeap Heap.alloc
  let files ← bnd2ReadFiles headers
  pure { b with files := files }

/-- `sf_bnd2_read_from_memory`; the archive that is filled in is allocated before it is read. -/
def bnd2ReadFromMemory (codecs : Codecs) (flexible : Bool) (data : List UInt8) :
    Fallible Heap SfError Bnd2 :=
  onMemory data false flexible (withDecompressedReader codecs do
    let _ ← onHeap Heap.alloc
    let _ ← onHeap Heap.alloc
    bnd2PopulateFromReader os)

end Reading

/-! ## Writing -/

section Writing

open BinaryWriter

variable (os : Win32)

/-- Whether a name has a drive, as far as `bnd2_write_name` looks. -/
def bnd2HasDrive (name : List UInt8) : Bool := 1 < name.length && name[1]? == some 0x3A

/-- `bnd2_write_name`. -/
def bnd2WriteName (nameUtf8 : Option (List UInt8)) (mode : UInt8) : WriteM Unit :=
  if mode ≠ bnd2FullPath then writeShiftJis os (some (nameUtf8.getD [])) true
  else if nameUtf8.any bnd2HasDrive then writeShiftJis os nameUtf8 true
  else do
    let _ ← onHeap Heap.alloc
    writeShiftJis os (some (cstr "K:\\" ++ nameUtf8.getD [])) true

/-- `bnd2_pad_data`. -/
def bnd2PadData (align : UInt16) : WriteM Unit :=
  if 0 < align then pad align.toNat else pure ()

def bnd2WriteFileHeader (fileInfoFlags filePathMode : UInt8) (i : Nat) (file : Bnd2File) : WriteM Unit := do
  writeI32 file.id
  reserveI32 (label "fileOffset_" i)
  reserveI32 (label "fileSize_" i)
  if bnd2HasNameOffset fileInfoFlags then
    if filePathMode = bnd2Nameless then writeI32 0 else reserveI32 (label "nameOffset_" i)
  else pure ()

def bnd2WriteFileName (filePathMode : UInt8) (i : Nat) (file : Bnd2File) : WriteM Unit := do
  let pos ← peek position
  check (pos ≤ INT32_MAX) .outOfRange
  fillI32 (label "nameOffset_" i) (Int32.ofNat pos)
  bnd2WriteName os file.nameUtf8 filePathMode

def bnd2WriteFileData (alignmentSize : UInt16) (i : Nat) (file : Bnd2File) : WriteM Unit := do
  bnd2PadData alignmentSize
  let pos ← peek position
  check (pos ≤ INT32_MAX ∧ file.data.length ≤ INT32_MAX) .outOfRange
  fillI32 (label "fileOffset_" i) (Int32.ofNat pos)
  fillI32 (label "fileSize_" i) (Int32.ofNat file.data.length)
  if 0 < file.data.length then writeBytes file.data else pure ()

/-- The base directory. -/
def bnd2WriteBaseDirectory (b : Bnd2) : WriteM Unit :=
  if b.filePathMode = bnd2BaseDirectory then do
    let pos ← peek position
    check (pos ≤ INT32_MAX) .outOfRange
    fillI32 (cstr "baseDirOffset") (Int32.ofNat pos)
    writeShiftJis os (some (b.baseDirectory.getD [])) true
  else fillI32 (cstr "baseDirOffset") 0

/-- What stands between the headers and the data. -/
def bnd2WriteNames (b : Bnd2) : WriteM Unit :=
  if bnd2HasNameOffset b.fileInfoFlags then do
    bnd2WriteBaseDirectory os b
    if b.filePathMode ≠ bnd2Nameless then forIndexed (bnd2WriteFileName os b.filePathMode) 0 b.files
    else pure ()
  else fillI32 (cstr "baseDirOffset") 0

/-- The word that stands in the place of the name offsets. -/
def bnd2WriteNoNames (fileInfoFlags : UInt8) : WriteM Unit :=
  if bnd2HasNameOffset fileInfoFlags then pure () else writeU32 0

/-- `bnd2_write_to_writer`. -/
def bnd2WriteToWriter (b : Bnd2) : WriteM Unit := do
  setBigEndian false
  writeAscii os (some (cstr "BND")) false
  writeU8 0
  writeU8 b.headerInfoFlags
  writeU8 b.fileInfoFlags
  writeU8 b.unk06
  writeU8 b.unk07
  writeI32 b.fileVersion
  reserveI32 (cstr "fileSize")
  check (b.files.length ≤ INT32_MAX) .outOfRange
  writeI32 (Int32.ofNat b.files.length)
  reserveI32 (cstr "baseDirOffset")
  writeU16 b.alignmentSize
  writeU8 b.filePathMode
  writeU8 b.unk1b
  writeU32 0
  bnd2WriteNoNames b.fileInfoFlags
  forIndexed (bnd2WriteFileHeader b.fileInfoFlags b.filePathMode) 0 b.files
  bnd2WriteNames os b
  forIndexed (bnd2WriteFileData b.alignmentSize) 0 b.files
  let fin ← peek position
  check (fin ≤ INT32_MAX) .outOfRange
  fillI32 (cstr "fileSize") (Int32.ofNat fin)

/-- `sf_bnd2_write_to_memory`. -/
def bnd2WriteToMemory (b : Bnd2) : Fallible Heap SfError (List UInt8) :=
  writeToMemory false (bnd2WriteToWriter os b)

end Writing

end SoulsFormats
