import SoulsFormats.Core.BinaryWriter
import SoulsFormats.Param.Cells

set_option autoImplicit false

/-! # Parameter files

The model of `param.c` up to its files: a parameter, the reader and the writer. What the reader works out and
does not use, the lowest offset of a text, is left out. -/

namespace SoulsFormats

open Bytes Fallible

/-! ## Parameters -/

/-- `has_flag1` and `has_flag2`. -/
def hasFlag (flags flag : UInt8) : Bool := flags &&& flag != 0

/-- `SF_PARAM_FORMAT_FLAGS1_FLAG01`. -/
def paramFlag01 : UInt8 := 0x01

/-- `SF_PARAM_FORMAT_FLAGS1_INT_DATA_OFFSET`. -/
def paramIntDataOffset : UInt8 := 0x02

/-- `SF_PARAM_FORMAT_FLAGS1_LONG_DATA_OFFSET`. -/
def paramLongDataOffset : UInt8 := 0x04

/-- `SF_PARAM_FORMAT_FLAGS1_OFFSET_PARAM_TYPE`. -/
def paramOffsetParamType : UInt8 := 0x80

/-- `SF_PARAM_FORMAT_FLAGS2_UNICODE_ROW_NAMES`. -/
def paramUnicodeRowNames : UInt8 := 0x01

/-- The cells of a row that a description was applied to. -/
structure AppliedCells where
  cells : List ParamCell
  dataSize : Nat
deriving DecidableEq

/-- `sf_param_row`. It has no cells until a description is applied to it. -/
structure ParamRow where
  id : Int32
  dataOffset : Int64 := 0
  data : List UInt8 := []
  name : Option (List UInt8) := none
  applied : Option AppliedCells := none
deriving DecidableEq

/-- `sf_param`. -/
structure Param where
  rows : List ParamRow
  paramType : List UInt8
  appliedParamdef : Option Paramdef := none
  bigEndian : Bool
  headerlessRows : Bool := false
  format2d : UInt8
  format2e : UInt8
  paramdefFormatVersion : UInt8
  paramdefDataVersion : Int16
  unk06 : Int16
  detectedSize : Int64

namespace Param

/-- The data starts at an offset of 32 bits behind the header. -/
def hasIntStart (p : Param) : Bool := hasFlag p.format2d paramFlag01 && hasFlag p.format2d paramIntDataOffset

def hasLongOffsets (p : Param) : Bool := hasFlag p.format2d paramLongDataOffset

def hasIntOffsets (p : Param) : Bool := hasFlag p.format2d paramIntDataOffset

def hasOffsetParamType (p : Param) : Bool := hasFlag p.format2d paramOffsetParamType

def hasUnicodeRowNames (p : Param) : Bool := hasFlag p.format2e paramUnicodeRowNames

end Param

/-! ## Reading -/

section Reading

open BinaryReader

variable (os : Win32)

/-- `seek_abs`. -/
def seekAbs (offset : Int) : ReadM Unit := onStream (IStream.seek offset)

/-- `read_param_type_at`. -/
def readParamTypeAt (offset : Int) : ReadM (Option (List UInt8)) := do
  let r ← state
  if offset ≤ 0 ∨ (r.length : Int) ≤ offset then pure none
  else do
    let s ← getShiftJis os offset
    pure (some s)

/-- The type behind an offset of 32 bits, or in place of that offset. -/
def readParamTypeHere : ReadM (List UInt8) := do
  let fieldPos ← peek position
  let paramTypeOffset ← readU32
  let r ← state
  if 0 < paramTypeOffset.toNat ∧ paramTypeOffset.toNat < r.length then do
    let s ← getShiftJis os paramTypeOffset.toNat
    seekAbs 0x2C
    pure s
  else do
    seekAbs fieldPos
    readFixStr os 0x20

/-- `read_param_type`. -/
def readParamTypeOf (format2d : UInt8) : ReadM (Option (List UInt8)) :=
  if hasFlag format2d paramOffsetParamType then do
    let _ ← assertI32 [0]
    let paramTypeOffset ← readI64
    let _ ← readEach (assertU8 [0]) 0x14
    readParamTypeAt os paramTypeOffset.toInt
  else if hasFlag format2d paramIntDataOffset ∨ hasFlag format2d paramLongDataOffset then do
    let s ← readParamTypeHere os
    pure (some s)
  else do
    let s ← readFixStr os 0x20
    pure (some s)

/-- `read_data_start`. -/
def readDataStart (format2d : UInt8) (dataStart : Int) : ReadM Int := do
  seekAbs 0x2C
  skip 4
  if hasFlag format2d paramIntDataOffset then do
    let value ← readI32
    let _ ← assertI32 [0]
    let _ ← assertI32 [0]
    let _ ← assertI32 [0]
    pure value.toInt
  else if hasFlag format2d paramLongDataOffset then do
    let value ← readI64
    let _ ← assertI64 [0]
    pure value.toInt
  else pure dataStart

/-- `row_header_size`. -/
def rowHeaderSize (format2d : UInt8) : Nat := if hasFlag format2d paramLongDataOffset then 24 else 12

/-- `reject_unnamed_or_headerless_rows`. -/
def rejectUnnamedOrHeaderlessRows (dataStart : Int) (rowCount headerSize : Nat) : ReadM Unit :=
  if rowCount = 0 ∨ dataStart < 0 then pure ()
  else do
    let rowsStart ← peek position
    check (0 ≤ dataStart - rowsStart) .unsupportedVersion
    check ((rowCount * headerSize : Nat) ≤ dataStart - rowsStart) .unsupportedVersion

/-- `read_row_name`. -/
def readRowName (format2e : UInt8) (nameOffset : Int) : ReadM (Option (List UInt8)) := do
  let r ← state
  if nameOffset = 0 ∨ nameOffset = r.length then pure none
  else do
    check (0 ≤ nameOffset ∧ nameOffset ≤ r.length) .truncated
    let s ← if hasFlag format2e paramUnicodeRowNames then getUtf16 os nameOffset else getShiftJis os nameOffset
    pure (some s)

/-- The offsets of the data and of the name of a row. -/
def readRowOffsets (format2d : UInt8) : ReadM (Int64 × Int) :=
  if hasFlag format2d paramLongDataOffset then do
    skip 4
    let dataOffset ← readI64
    let nameOffset ← readI64
    pure (dataOffset, nameOffset.toInt)
  else if hasFlag format2d paramIntDataOffset then do
    let dataOffset ← readI32
    let nameU32 ← readU32
    pure (dataOffset.toInt64, nameU32.toNat)
  else do
    let dataOffset ← readU16
    skip 2
    let nameU32 ← readU32
    pure (Int64.ofNat dataOffset.toNat, nameU32.toNat)

/-- `read_row`. -/
def readRow (format2d format2e : UInt8) : ReadM ParamRow := do
  let id ← readI32
  let (dataOffset, nameOffset) ← readRowOffsets format2d
  let name ← readRowName os format2e nameOffset
  pure { id := id, dataOffset := dataOffset, name := name }

/-- The size of the rows: how far the first two are apart, or how far the only one is from the texts. -/
def detectSize (rows : List ParamRow) (stringsOffset : Nat) : ReadM Int64 :=
  match rows with
  | first :: second :: _ => do
    let size ← int64Add second.dataOffset.toInt (-first.dataOffset.toInt)
    pure (Int64.ofInt size)
  | [first] => do
    let size ← int64Add stringsOffset (-first.dataOffset.toInt)
    pure (Int64.ofInt size)
  | [] => pure (-1)

/-- The sizes of the data of the rows: each ends where the next one starts, the last at the texts. -/
def rowDataSizes (length : Nat) (stringsOffset : Int) : List ParamRow → Nat → Except SfError (List Nat)
  | [], _ => .ok []
  | row :: rest, totalSize =>
    let start := row.dataOffset.toInt
    let stop := match rest with
      | next :: _ => next.dataOffset.toInt
      | [] => stringsOffset
    if start < 0 ∨ (length : Int) < start ∨ stop < start ∨ (length : Int) < stop then .error .truncated
    else
      let size := (stop - start).toNat
      if SIZE_MAX - totalSize < size then .error .outOfRange
      else do
        let sizes ← rowDataSizes length stringsOffset rest (totalSize + size)
        pure (size :: sizes)

/-- The data of a row, in a block of its own or in one for all rows. -/
def readRowData (arena : Bool) (row : ParamRow) (size : Nat) : ReadM ParamRow :=
  if size = 0 then pure row
  else do
    given (!arena) () do
      let _ ← onHeap Heap.alloc
      pure ()
    seekAbs row.dataOffset.toInt
    let data ← readBytes size
    pure { row with data := data }

/-- The loop that reads the data of the rows. -/
def readRowsData (arena : Bool) : List (ParamRow × Nat) → ReadM (List ParamRow)
  | [] => pure []
  | (row, size) :: rest => do
    let row ← readRowData arena row size
    let rows ← readRowsData arena rest
    pure (row :: rows)

/-- `PARAM_ROW_ARENA_MIN_ROWS`. -/
def paramRowArenaMinRows : Nat := 1000

/-- `capture_row_data`. -/
def captureRowData (rows : List ParamRow) (stringsOffset : Nat) : ReadM (List ParamRow) := do
  let r ← state
  check (0 < stringsOffset ∧ stringsOffset ≤ r.length) .truncated
  let sizes ← lift (rowDataSizes r.length stringsOffset rows 0)
  let arena := decide (paramRowArenaMinRows ≤ rows.length ∧ 0 < sizes.sum)
  given arena () do
    let _ ← onHeap Heap.alloc
    pure ()
  readRowsData arena (rows.zip sizes)

/-- The type, or an empty one, which takes a block too. -/
def orEmptyType : Option (List UInt8) → ReadM (List UInt8)
  | some s => pure s
  | none => do
    let _ ← onHeap Heap.alloc
    pure []

/-- `param_read`. -/
def paramRead : ReadM Param := do
  seekAbs 0x2C
  let endianByte ← readU8
  check (endianByte = 0 ∨ endianByte = 0xFF) .badMagic
  let bigEndian := decide (endianByte = 0xFF)
  setBigEndian bigEndian
  let format2d ← readU8
  let format2e ← readU8
  let paramdefFormatVersion ← readU8
  let _ ← onHeap Heap.alloc
  seekAbs 0
  let stringsOffset ← readU32
  let dataStart ← readU16
  let unk06 ← readI16
  let paramdefDataVersion ← readI16
  let rowCount ← readU16
  let paramType ← readParamTypeOf os format2d
  let paramType ← orEmptyType paramType
  let dataStart ← readDataStart format2d dataStart.toNat
  let rowsStart ← peek position
  rejectUnnamedOrHeaderlessRows dataStart rowCount.toNat (rowHeaderSize format2d)
  given (0 < rowCount.toNat) () do
    let _ ← onHeap Heap.alloc
    pure ()
  seekAbs rowsStart
  let rows ← readEach (readRow os format2d format2e) rowCount.toNat
  let detectedSize ← detectSize rows stringsOffset.toNat
  let rows ← captureRowData rows stringsOffset.toNat
  pure { rows := rows, paramType := paramType, bigEndian := bigEndian, format2d := format2d, format2e := format2e,
         paramdefFormatVersion := paramdefFormatVersion, paramdefDataVersion := paramdefDataVersion, unk06 := unk06,
         detectedSize := detectedSize }

/-- `sf_param_read_from_memory`. -/
def paramReadFromMemory (flexible : Bool) (data : List UInt8) : Fallible Heap SfError Param :=
  onMemory data false flexible (paramRead os)

end Reading

/-! ## Writing -/

section Writing

open BinaryWriter

variable (os : Win32) (p : Param)

/-- `reserve_row_offset`. -/
def reserveRowOffset (i : Nat) : WriteM Unit :=
  if p.hasLongOffsets then reserveI64 (label "RowOffset" i)
  else if p.hasIntOffsets then reserveI32 (label "RowOffset" i)
  else reserveU16 (label "RowOffset" i)

/-- `fill_row_offset`. -/
def fillRowOffset (i value : Nat) : WriteM Unit :=
  if p.hasLongOffsets then fillI64 (label "RowOffset" i) (Int64.ofNat value)
  else if p.hasIntOffsets then do
    check (value ≤ INT32_MAX) .outOfRange
    fillI32 (label "RowOffset" i) (Int32.ofNat value)
  else do
    check (value < 2 ^ 16) .outOfRange
    fillU16 (label "RowOffset" i) (UInt16.ofNat value)

/-- `reserve_name_offset`. -/
def reserveNameOffset (i : Nat) : WriteM Unit :=
  if p.hasLongOffsets then reserveI64 (label "NameOffset" i) else reserveU32 (label "NameOffset" i)

/-- `fill_name_offset`. -/
def fillNameOffset (i value : Nat) : WriteM Unit :=
  if p.hasLongOffsets then fillI64 (label "NameOffset" i) (Int64.ofNat value)
  else do
    check (value < 2 ^ 32) .outOfRange
    fillU32 (label "NameOffset" i) (UInt32.ofNat value)

/-- `write_row_header`. -/
def writeRowHeader (i : Nat) (row : ParamRow) : WriteM Unit := do
  writeI32 row.id
  given p.hasLongOffsets () (writeI32 0)
  reserveRowOffset p i
  given (!p.hasLongOffsets && !p.hasIntOffsets) () (writeU16 0)
  reserveNameOffset p i

/-- What is written of a row: what its cells give, or its data. -/
def writeRowBytes (row : ParamRow) : WriteM Unit :=
  match row.applied with
  | some applied => do
    let rowBytes ← onHeap (rowCellsToBytes os p.bigEndian applied.cells applied.dataSize)
    given (0 < rowBytes.length) () (writeBytes rowBytes)
  | none => given (0 < row.data.length) () (writeBytes row.data)

/-- One round of `write_rows`. -/
def writeRow (i : Nat) (row : ParamRow) : WriteM Unit := do
  let pos ← peek position
  fillRowOffset p i pos
  writeRowBytes os p row

/-- `find_previous_name_offset`: the offset of an equal name among those before, with their offsets; no name has
    none. -/
def findPreviousNameOffset (name : List UInt8) : List (List UInt8 × Nat) → Option Nat
  | [] => none
  | (other, offset) :: rest => if cText name = cText other then some offset else findPreviousNameOffset name rest

/-- A name that no row before has. -/
def writeNewName (name : List UInt8) : WriteM Nat := do
  let pos ← peek position
  if p.hasUnicodeRowNames then writeUtf16 os (some name) true else writeShiftJis os (some name) true
  pure pos

/-- The offset of a name, where it is written if it is new. An offset that was found and is 0 counts as none. -/
def writeRowName (name : List UInt8) (before : List (List UInt8 × Nat)) : WriteM Nat :=
  if cText name = [] then pure 0
  else
    match findPreviousNameOffset name before with
    | none => writeNewName os p name
    | some 0 => writeNewName os p name
    | some offset => pure offset

/-- The loop of `write_row_names`. -/
def writeRowNamesFrom : Nat → List ParamRow → List (List UInt8 × Nat) → WriteM Unit
  | _, [], _ => pure ()
  | i, row :: rest, before => do
    let name := row.name.getD []
    let offset ← writeRowName os p name before
    fillNameOffset p i offset
    writeRowNamesFrom (i + 1) rest (before ++ [(name, offset)])

/-- `write_row_names`. -/
def writeRowNames : WriteM Unit := do
  let _ ← onHeap Heap.alloc
  writeRowNamesFrom os p 0 p.rows []
  writeI16 0

/-- `fill_data_start`. -/
def fillDataStart (dataStart : Nat) : WriteM Unit :=
  if p.hasIntStart then do
    check (dataStart < 2 ^ 32) .outOfRange
    fillU32 (cstr "DataStart") (UInt32.ofNat dataStart)
  else if p.hasLongOffsets then fillI64 (cstr "DataStart") (Int64.ofNat dataStart)
  else do
    check (dataStart < 2 ^ 16) .outOfRange
    fillU16 (cstr "DataStart") (UInt16.ofNat dataStart)

/-- Where the start of the data is in front of the type. -/
def writeShortStart : WriteM Unit :=
  if p.hasIntStart ∨ p.hasLongOffsets then writeI16 0 else reserveU16 (cstr "DataStart")

/-- The type, or where it will be. -/
def writeParamType : WriteM Unit :=
  if p.hasOffsetParamType then do
    writeI32 0
    reserveI64 (cstr "ParamTypeOffset")
    writePattern 0x14 0
  else if p.hasIntOffsets ∨ p.hasLongOffsets then do
    reserveU32 (cstr "ParamTypeOffset32")
    writePattern 0x1C 0
  else writeFixStr os (some p.paramType) 0x20 (if hasFlag p.format2d paramFlag01 then 0x20 else 0x00)

/-- Where the start of the data is behind the flags. -/
def writeLongStart : WriteM Unit :=
  if p.hasIntStart then do
    reserveU32 (cstr "DataStart")
    writeI32 0
    writeI32 0
    writeI32 0
  else if p.hasLongOffsets then do
    reserveI64 (cstr "DataStart")
    writeI64 0
  else pure ()

/-- The type behind the data. -/
def writeLateParamType : WriteM Unit := do
  let pos ← peek position
  if p.hasOffsetParamType then do
    fillI64 (cstr "ParamTypeOffset") (Int64.ofNat pos)
    writeAscii os (some p.paramType) true
  else if p.hasIntOffsets ∨ p.hasLongOffsets then do
    check (pos < 2 ^ 32) .outOfRange
    fillU32 (cstr "ParamTypeOffset32") (UInt32.ofNat pos)
    writeShiftJis os (some p.paramType) true
  else pure ()

/-- `param_write`. -/
def paramWrite : WriteM Unit := do
  check (p.rows.length < 2 ^ 16) .outOfRange
  setBigEndian p.bigEndian
  reserveU32 (cstr "StringsOffset")
  writeShortStart p
  writeI16 p.unk06
  writeI16 p.paramdefDataVersion
  writeU16 (UInt16.ofNat p.rows.length)
  writeParamType os p
  writeU8 (if p.bigEndian then 0xFF else 0x00)
  writeU8 p.format2d
  writeU8 p.format2e
  writeU8 p.paramdefFormatVersion
  writeLongStart p
  forIndexed (writeRowHeader p) 0 p.rows
  given (p.format2d = paramFlag01) () (writePattern 0x20 0)
  let dataStart ← peek position
  fillDataStart p dataStart
  forIndexed (writeRow os p) 0 p.rows
  let stringsOffset ← peek position
  check (stringsOffset < 2 ^ 32) .outOfRange
  fillU32 (cstr "StringsOffset") (UInt32.ofNat stringsOffset)
  writeLateParamType os p
  writeRowNames os p

/-- `sf_param_write_to_memory`. -/
def paramWriteToMemory : Fallible Heap SfError (List UInt8) := writeToMemory p.bigEndian (paramWrite os p)

end Writing

end SoulsFormats
