import SoulsFormats.Param.RowOperations

set_option autoImplicit false

/-! # Setting cells and copying rows

The model of the setters of `param.c`, of `sf_param_cell_copy` and of `sf_param_row_copy`. A setter changes the cell
and the data of the row that the cell's parent link leads to. -/

namespace SoulsFormats

open Bytes Fallible

/-! ## Cells of a parameter -/

namespace Param

def cellAt (p : Param) (r c : Nat) : Option ParamCell :=
  p.rows[r]?.bind fun row => row.applied.bind fun applied => applied.cells[c]?

/-- The size of the data of a row. -/
def dataSizeAt (p : Param) (r : Nat) : Option Nat := p.rows[r]?.map fun row => row.data.length

def setRowData (r : Nat) (data : List UInt8) (p : Param) : Param :=
  { p with rows := p.rows.modify r fun row => { row with data := data } }

def setCellValue (r c : Nat) (value : ParamCellValue) (p : Param) : Param :=
  { p with rows := p.rows.modify r fun row => { row with
      applied := row.applied.map fun applied => { applied with
        cells := applied.cells.modify c fun cell => { cell with value := value } } } }

end Param

/-- A cell that the caller holds. -/
def findCell (r c : Nat) : RowM ParamCell := do
  let s ← state
  match s.param.cellAt r c with
  | some cell => pure cell
  | none => fail .undefinedBehaviour

/-- `cell_declared_size`. -/
def cellDeclaredSize (cell : ParamCell) : Nat :=
  if 0 < cell.byteCount.toInt then cell.byteCount.toInt.toNat
  else if 0 < cell.arrayLength.toInt then cell.arrayLength.toInt.toNat
  else 0

/-- The row that the parent link leads to has the bytes of the cell. -/
def ParamCell.backed (cell : ParamCell) (p : Param) (bytesNeeded : Nat) : Bool :=
  match p.dataSizeAt cell.parentRow with
  | some size => size ≠ 0 && bytesNeeded ≤ size && cell.byteOffset ≤ size - bytesNeeded
  | none => false

/-- `check_cell_backing`, and the data that it checks. A parent link always leads to a row. -/
def checkCellBacking (p : Param) (cell : ParamCell) (bytesNeeded : Nat) : Except SfError (List UInt8) :=
  match p.rows[cell.parentRow]? with
  | none => .error .undefinedBehaviour
  | some row => if cell.backed p bytesNeeded then .ok row.data else .error .invalidArg

/-- `store_cell_bit_window`. -/
def storeCellBitWindow (data : List UInt8) (offset byteCount : Nat) (value : UInt64) (bigEndian : Bool) :
    Except SfError (List UInt8) :=
  if byteCount = 1 ∨ byteCount = 2 ∨ byteCount = 4 ∨ byteCount = 8 then
    storeWord data offset byteCount value.toNat bigEndian
  else .ok data

/-- The bits of a cell, put into a window. -/
def maskedWindow (cell : ParamCell) (window value : UInt64) : UInt64 :=
  let mask := ((1 : UInt64) <<< UInt64.ofNat cell.bitSize.toInt.toNat) - 1
  (window &&& ~~~(mask <<< UInt64.ofNat cell.bitOffset)) ||| ((value &&& mask) <<< UInt64.ofNat cell.bitOffset)

/-- `write_cell_backing`: the data of the row with the value stored. -/
def writeCellBacking (p : Param) (cell : ParamCell) (value : UInt64) (byteCount : Nat) :
    Except SfError (List UInt8) :=
  if cell.isBitField then
    if cell.bitSize.toInt ≤ 0 ∨ cell.bitLimit = 0 then .error .invalidArg
    else if 64 ≤ cell.bitSize.toInt ∨ 64 ≤ cell.bitOffset then .error .undefinedBehaviour
    else do
      let data ← checkCellBacking p cell (cell.bitLimit / 8)
      let window ← loadBitWindow data cell.byteOffset (cell.bitLimit / 8) p.bigEndian
      storeCellBitWindow data cell.byteOffset (cell.bitLimit / 8) (maskedWindow cell window value) p.bigEndian
  else do
    let data ← checkCellBacking p cell byteCount
    storeWord data cell.byteOffset byteCount value.toNat p.bigEndian

/-! ## Setters -/

section Setters

variable (r c : Nat)

/-- A setter of a number. -/
def setScalar (kind : ParamCellKind) (raw : UInt64) (byteCount : Nat) (value : ParamCellValue) : RowM Unit := do
  let cell ← findCell r c
  check (cell.value.kind = kind) .invalidArg
  let s ← state
  let data ← lift (writeCellBacking s.param cell raw byteCount)
  updateParam (Param.setRowData cell.parentRow data)
  updateParam (Param.setCellValue r c value)

/-- `sf_param_cell_set_s8`. -/
def setS8 (v : Int8) : RowM Unit := setScalar r c .s8 v.toUInt8.toUInt64 1 (.s8 v)

/-- `sf_param_cell_set_u8`. -/
def setU8 (v : UInt8) : RowM Unit := setScalar r c .u8 v.toUInt64 1 (.u8 v)

/-- `sf_param_cell_set_s16`. -/
def setS16 (v : Int16) : RowM Unit := setScalar r c .s16 v.toUInt16.toUInt64 2 (.s16 v)

/-- `sf_param_cell_set_u16`. -/
def setU16 (v : UInt16) : RowM Unit := setScalar r c .u16 v.toUInt64 2 (.u16 v)

/-- `sf_param_cell_set_s32`. -/
def setS32 (v : Int32) : RowM Unit := setScalar r c .s32 v.toUInt32.toUInt64 4 (.s32 v)

/-- `sf_param_cell_set_u32`. -/
def setU32 (v : UInt32) : RowM Unit := setScalar r c .u32 v.toUInt64 4 (.u32 v)

/-- `sf_param_cell_set_s64`. -/
def setS64 (v : Int64) : RowM Unit := setScalar r c .s64 v.toUInt64 8 (.s64 v)

/-- `sf_param_cell_set_u64`. -/
def setU64 (v : UInt64) : RowM Unit := setScalar r c .u64 v 8 (.u64 v)

/-- `sf_param_cell_set_f32`, of the bits of a float. -/
def setF32 (v : UInt32) : RowM Unit := setScalar r c .f32 v.toUInt64 4 (.f32 v)

/-- `sf_param_cell_set_angle32`. -/
def setAngle32 (v : UInt32) : RowM Unit := setScalar r c .angle32 v.toUInt64 4 (.angle32 v)

/-- `sf_param_cell_set_f64`. -/
def setF64 (v : UInt64) : RowM Unit := setScalar r c .f64 v 8 (.f64 v)

/-- What `sf_param_cell_set_bool` stores. -/
def boolWord (v : Bool) : UInt32 := if v then 1 else 0

/-- `sf_param_cell_set_bool`. -/
def setBool (v : Bool) : RowM Unit := setScalar r c .b32 (boolWord v).toUInt64 4 (.b32 (boolWord v))

/-- Bytes that are cleared and filled from their start. -/
def fillBytes (data : List UInt8) (offset capacity : Nat) (bytes : List UInt8) : Except SfError (List UInt8) :=
  if data.length < offset + capacity then .error .undefinedBehaviour
  else .ok (overwrite data offset (bytes ++ List.replicate (capacity - bytes.length) 0))

/-- A block of some bytes. One of no bytes is asked for too, and not missed. -/
def newBlock (size : Nat) : RowM Unit := do
  match ← attempt (onAllocator Heap.alloc) with
  | .error e => check (size = 0) e
  | .ok _ => pure ()

/-- The cell holds an array of bytes. -/
def ParamCellKind.isBytes : ParamCellKind → Bool
  | .u8Array | .dummy8Array => true
  | _ => false

/-- The data under a cell is filled with bytes. A cell that is filled has room for them, and its row for what is
    checked. -/
def fillCell (cell : ParamCell) (bytesNeeded : Nat) (bytes : List UInt8) : RowM Unit := do
  check (cellDeclaredSize cell ≠ 0) .invalidArg
  check (bytes.length ≤ cellDeclaredSize cell) .outOfRange
  let s ← state
  let data ← lift (checkCellBacking s.param cell bytesNeeded)
  let data ← lift (fillBytes data cell.byteOffset (cellDeclaredSize cell) bytes)
  updateParam (Param.setRowData cell.parentRow data)

/-- `sf_param_cell_set_bytes`, which checks the room for the bytes and clears all of the cell. -/
def setBytes (bytes : List UInt8) : RowM Unit := do
  let cell ← findCell r c
  check (cell.value.kind.isBytes = true) .invalidArg
  fillCell cell bytes.length bytes
  newBlock bytes.length
  updateParam (Param.setCellValue r c (if cell.value.kind = .u8Array then .u8Array bytes else .dummy8Array bytes))

/-- `sf_param_cell_set_fixstr`. -/
def setFixstr (text : List UInt8) : RowM Unit := do
  let cell ← findCell r c
  check (cell.value.kind = .fixstr) .invalidArg
  fillCell cell (cellDeclaredSize cell) text
  newBlock (text.length + 1)
  updateParam (Param.setCellValue r c (.fixstr text))

/-- `sf_param_cell_copy`, of a cell that has this value. -/
def cellCopy (value : ParamCellValue) : RowM Unit := do
  let cell ← findCell r c
  check (cell.value.kind = value.kind) .invalidArg
  match value with
  | .u8 v => setU8 r c v
  | .dummy8Bit v => setU8 r c v
  | .s8 v => setS8 r c v
  | .u16 v => setU16 r c v
  | .s16 v => setS16 r c v
  | .u32 v => setU32 r c v
  | .s32 v => setS32 r c v
  | .u64 v => setU64 r c v
  | .s64 v => setS64 r c v
  | .b32 v => setBool r c (v != 0)
  | .f32 v => setF32 r c v
  | .angle32 v => setAngle32 r c v
  | .f64 v => setF64 r c v
  | .dummy8Array bytes => setBytes r c bytes
  | .u8Array bytes => setBytes r c bytes
  | .fixstr utf8 => setFixstr r c utf8
  | .fixstrW utf8 => setFixstr r c utf8

end Setters

/-! ## Copying rows -/

/-- A call whose error code is not looked at. -/
def discarded (m : RowM Unit) : RowM Unit := do
  match ← attempt m with
  | .error .undefinedBehaviour => fail .undefinedBehaviour
  | _ => pure ()

def ParamRow.cells (row : ParamRow) : List ParamCell :=
  match row.applied with
  | some applied => applied.cells
  | none => []

/-- `sf_param_row_copy`, with the rows given by their indices. -/
def rowCopy (dst src : Nat) : RowM Unit :=
  if dst = src then pure ()
  else do
    let s ← state
    match s.param.rows[dst]?, s.param.rows[src]? with
    | some dstRow, some srcRow => do
      check (dstRow.cells.length = srcRow.cells.length ∧ dstRow.data.length = srcRow.data.length) .invalidArg
      given (0 < srcRow.data.length) () (updateParam (Param.setRowData dst srcRow.data))
      forIndexed (fun c cell => discarded (cellCopy dst c cell.value)) 0 srcRow.cells
    | _, _ => fail .undefinedBehaviour

end SoulsFormats
