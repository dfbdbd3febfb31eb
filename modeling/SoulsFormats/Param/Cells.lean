import SoulsFormats.Core.Encoding
import SoulsFormats.Param.FieldLayout

set_option autoImplicit false

/-! # Cells

The model of `paramdef_apply.c` below the layout: how the cells of a row are read from its data by a layout, and
how the bytes of a row are made of its cells. A helper that is called against its precondition has no result. -/

namespace SoulsFormats

open Bytes Fallible

/-! ## Bits -/

/-- A C array of `n` bytes that is worked on in place. -/
abbrev ByteArr (n : Nat) := { bs : List UInt8 // bs.length = n }

/-- `extract_bits_unsigned`. -/
def extractBitsUnsigned {n : Nat} (buf : ByteArr n) (bitOffset bitSize : Nat) : Except SfError UInt64 :=
  if n < bitOffset / 8 + 8 ∨ bitSize = 0 ∨ 64 < bitSize + bitOffset % 8 then .error .undefinedBehaviour
  else
    let bitValue := UInt64.ofNat (leNat ((buf.1.drop (bitOffset / 8)).take 8))
    .ok ((bitValue <<< UInt64.ofNat (64 - bitSize - bitOffset % 8)) >>> UInt64.ofNat (64 - bitSize))

/-- `extract_bits_signed`. -/
def extractBitsSigned {n : Nat} (buf : ByteArr n) (bitOffset bitSize : Nat) : Except SfError Int64 := do
  let u ← extractBitsUnsigned buf bitOffset bitSize
  if bitSize < 64 ∧ (u >>> UInt64.ofNat (bitSize - 1)) &&& 1 ≠ 0 then
    pure (u ||| ((0xFFFFFFFFFFFFFFFF : UInt64) <<< UInt64.ofNat bitSize)).toInt64
  else pure u.toInt64

/-- `insert_bits`. -/
def insertBits {n : Nat} (buf : ByteArr n) (bitOffset bitSize : Nat) (value : UInt64) : Except SfError (ByteArr n) :=
  if h : n < bitOffset / 8 + 8 ∨ bitSize = 0 ∨ 64 < bitSize + bitOffset % 8 then .error .undefinedBehaviour
  else
    let existing := UInt64.ofNat (leNat ((buf.1.drop (bitOffset / 8)).take 8))
    let shift := UInt64.ofNat (bitOffset % 8)
    let mask := if bitSize < 64 then ((1 : UInt64) <<< UInt64.ofNat bitSize) - 1 else 0xFFFFFFFFFFFFFFFF
    let mask := mask <<< shift
    let existing := (existing &&& ~~~mask) ||| ((value <<< shift) &&& mask)
    .ok ⟨overwrite buf.1 (bitOffset / 8) (leBytes 8 existing.toNat), by
      rw [not_or, Nat.not_lt] at h
      rw [length_overwrite, length_leBytes, buf.2]
      exact Nat.max_eq_left h.1⟩

/-- `detect_orphaned_bits`. -/
def detectOrphanedBits (bitValue : UInt64) (bitOffset : Nat) : Bool :=
  bitOffset < 64 && (bitValue >>> UInt64.ofNat bitOffset) != 0

/-- The window, as its eight bytes. -/
def storeU64Le (v : UInt64) : ByteArr 8 := ⟨leBytes 8 v.toNat, length_leBytes 8 v.toNat⟩

/-- `load_u64_le`. -/
def loadU64Le (p : ByteArr 8) : UInt64 := UInt64.ofNat (leNat p.1)

/-! ## Words of a row -/

/-- `check_range`. -/
def checkRange (offset need size : Nat) : Except SfError Unit :=
  if size < need ∨ size - need < offset then .error .truncated else .ok ()

/-- `load_u16`, `load_u32` and `load_u64`. -/
def loadWord (data : List UInt8) (offset n : Nat) (bigEndian : Bool) : Except SfError Nat :=
  if data.length < offset + n then .error .undefinedBehaviour
  else .ok (wordNat bigEndian ((data.drop offset).take n))

/-- `store_u16`, `store_u32` and `store_u64`. -/
def storeWord (out : List UInt8) (offset n v : Nat) (bigEndian : Bool) : Except SfError (List UInt8) :=
  if out.length < offset + n then .error .undefinedBehaviour
  else .ok (overwrite out offset (wordBytes bigEndian n v))

/-- `load_bit_window`. -/
def loadBitWindow (data : List UInt8) (offset byteCount : Nat) (bigEndian : Bool) : Except SfError UInt64 :=
  if byteCount = 1 ∨ byteCount = 2 ∨ byteCount = 4 then do
    let v ← loadWord data offset byteCount bigEndian
    pure (UInt64.ofNat v)
  else .ok 0

/-- `store_bit_window`. -/
def storeBitWindow (out : List UInt8) (offset byteCount : Nat) (value : UInt64) (bigEndian : Bool) :
    Except SfError (List UInt8) :=
  if byteCount = 1 ∨ byteCount = 2 ∨ byteCount = 4 then storeWord out offset byteCount value.toNat bigEndian
  else .ok out

/-! ## Values -/

/-- `sf_param_cell_value_t`. A float is given by its bits, a text by its bytes. -/
inductive ParamCellValue where
  | s8 (v : Int8)
  | u8 (v : UInt8)
  | u8Array (bytes : List UInt8)
  | s16 (v : Int16)
  | u16 (v : UInt16)
  | s32 (v : Int32)
  | u32 (v : UInt32)
  | s64 (v : Int64)
  | u64 (v : UInt64)
  | b32 (v : UInt32)
  | f32 (v : UInt32)
  | angle32 (v : UInt32)
  | f64 (v : UInt64)
  | dummy8Bit (v : UInt8)
  | dummy8Array (bytes : List UInt8)
  | fixstr (utf8 : List UInt8)
  | fixstrW (utf8 : List UInt8)
deriving DecidableEq

def ParamCellValue.kind : ParamCellValue → ParamCellKind
  | s8 _ => .s8
  | u8 _ => .u8
  | u8Array _ => .u8Array
  | s16 _ => .s16
  | u16 _ => .u16
  | s32 _ => .s32
  | u32 _ => .u32
  | s64 _ => .s64
  | u64 _ => .u64
  | b32 _ => .b32
  | f32 _ => .f32
  | angle32 _ => .angle32
  | f64 _ => .f64
  | dummy8Bit _ => .dummy8Bit
  | dummy8Array _ => .dummy8Array
  | fixstr _ => .fixstr
  | fixstrW _ => .fixstrW

/-- `sf_param_cell`. The row that its bytes are in is given by its index. -/
structure ParamCell where
  internalName : List UInt8
  parentRow : Nat
  byteOffset : Nat
  bitOffset : Nat
  bitLimit : Nat
  isBitField : Bool
  displayType : ParamdefDefType
  bitSize : Int32
  arrayLength : Int32
  byteCount : Int32
  value : ParamCellValue
deriving DecidableEq

/-- `init_cell_from_layout`, of a cell whose value is known. -/
def initCellFromLayout (entry : FieldLayoutEntry) (parentRow : Nat) (value : ParamCellValue) : ParamCell where
  internalName := entry.field.internalName
  parentRow := parentRow
  byteOffset := entry.byteOffset
  bitOffset := entry.bitOffset
  bitLimit := entry.bitLimit
  isBitField := entry.isBitField
  displayType := entry.displayType
  bitSize := entry.declaredBitSize
  arrayLength := entry.arrayLength
  byteCount := entry.declaredByteCount
  value := value

/-! ## Reading -/

section Reading

variable (os : Win32) (bigEndian : Bool)

/-- `bit_read_state_t` of a window that is active. -/
structure BitReadState where
  byteOffset : Nat
  bitLimit : Nat
  bitValue : UInt64
  window : ByteArr 8

/-- `is_signed_bit_type`. -/
def isSignedBitType (type : ParamdefDefType) : Bool := type = .s8 || type = .s16 || type = .s32

/-- `assign_integral_cell`. -/
def assignIntegralCell (type : ParamdefDefType) (signedValue : Int64) (unsignedValue : UInt64) :
    Except SfError ParamCellValue :=
  match type with
  | .s8 => .ok (.s8 signedValue.toInt8)
  | .u8 => .ok (.u8 unsignedValue.toUInt8)
  | .s16 => .ok (.s16 signedValue.toInt16)
  | .u16 => .ok (.u16 unsignedValue.toUInt16)
  | .s32 => .ok (.s32 signedValue.toInt32)
  | .u32 => .ok (.u32 unsignedValue.toUInt32)
  | .dummy8 => .ok (.dummy8Bit unsignedValue.toUInt8)
  | _ => .error .internal

/-- `start_read_bits`. -/
def startReadBits (data : List UInt8) (offset bitLimit : Nat) : Except SfError BitReadState := do
  checkRange offset (bitLimit / 8) data.length
  let bitValue ← loadBitWindow data offset (bitLimit / 8) bigEndian
  pure ⟨offset, bitLimit, bitValue, storeU64Le bitValue⟩

/-- The window of an entry: the one that is active, or a new one. -/
def readBitWindow (entry : FieldLayoutEntry) (data : List UInt8) (bits : Option BitReadState) :
    Except SfError BitReadState :=
  match bits with
  | some bits =>
    if bits.byteOffset ≠ entry.byteOffset ∨ bits.bitLimit ≠ entry.bitLimit then
      startReadBits bigEndian data entry.byteOffset entry.bitLimit
    else .ok bits
  | none => startReadBits bigEndian data entry.byteOffset entry.bitLimit

/-- The bits of an entry, as a signed and as an unsigned number. -/
def extractBits (entry : FieldLayoutEntry) (bits : BitReadState) : Except SfError (Int64 × UInt64) :=
  if isSignedBitType entry.displayType then do
    let signedRaw ← extractBitsSigned bits.window entry.bitOffset entry.bitSize
    pure (signedRaw, signedRaw.toUInt64)
  else do
    let raw ← extractBitsUnsigned bits.window entry.bitOffset entry.bitSize
    pure (raw.toInt64, raw)

/-- `read_layout_bit_cell`. -/
def readLayoutBitCell (entry : FieldLayoutEntry) (data : List UInt8) (bits : Option BitReadState) :
    Except SfError (ParamCellValue × BitReadState) := do
  let bits ← readBitWindow bigEndian entry data bits
  let (signedRaw, raw) ← extractBits entry bits
  let value ← assignIntegralCell entry.displayType signedRaw raw
  if entry.checkOrphanedBitsAfter ∧ detectOrphanedBits bits.bitValue (entry.bitOffset + entry.bitSize) then
    .error .badMagic
  else pure (value, bits)

/-- `set_cell_bytes`. -/
def setCellBytes (bytes : List UInt8) : Fallible Heap SfError (List UInt8) := do
  given (0 < bytes.length) () do
    let _ ← Heap.alloc
    pure ()
  pure bytes

/-- The bytes of a wide text: up to a unit that is zero, or up to where no whole unit follows. -/
def fixstrWText : List UInt8 → List UInt8
  | a :: b :: rest => if a = 0 ∧ b = 0 then [] else a :: b :: fixstrWText rest
  | _ => []

/-- `set_cell_fixstr`. -/
def setCellFixstr (bytes : List UInt8) : Fallible Heap SfError (List UInt8) := shiftJisToUtf8 os (cText bytes)

/-- `set_cell_fixstr_w`. -/
def setCellFixstrW (bytes : List UInt8) : Fallible Heap SfError (List UInt8) :=
  if bigEndian then utf16beToUtf8 os (fixstrWText bytes) else utf16leToUtf8 os (fixstrWText bytes)

/-- `read_nonbit_cell`, at an offset that is not used again. -/
def readNonbitCell (type : ParamdefDefType) (arrayLength : Int32) (data : List UInt8) (offset count : Nat) :
    Fallible Heap SfError ParamCellValue := do
  check (count ≠ 0) .badMagic
  lift (checkRange offset count data.length)
  let bytes := (data.drop offset).take count
  let word (n : Nat) : Fallible Heap SfError Nat := lift (loadWord data offset n bigEndian)
  match type with
  | .b32 => do
    let v ← word 4
    pure (.b32 (UInt32.ofNat v))
  | .f32 => do
    let v ← word 4
    pure (.f32 (UInt32.ofNat v))
  | .angle32 => do
    let v ← word 4
    pure (.angle32 (UInt32.ofNat v))
  | .f64 => do
    let v ← word 8
    pure (.f64 (UInt64.ofNat v))
  | .fixstr => do
    let s ← setCellFixstr os bytes
    pure (.fixstr s)
  | .fixstrW => do
    let s ← setCellFixstrW os bigEndian bytes
    pure (.fixstrW s)
  | .s8 => do
    let v ← word 1
    pure (.s8 (UInt8.ofNat v).toInt8)
  | .u8 =>
    if 1 < arrayLength.toInt then do
      let bytes ← setCellBytes bytes
      pure (.u8Array bytes)
    else do
      let v ← word 1
      pure (.u8 (UInt8.ofNat v))
  | .s16 => do
    let v ← word 2
    pure (.s16 (UInt16.ofNat v).toInt16)
  | .u16 => do
    let v ← word 2
    pure (.u16 (UInt16.ofNat v))
  | .s32 => do
    let v ← word 4
    pure (.s32 (UInt32.ofNat v).toInt32)
  | .u32 => do
    let v ← word 4
    pure (.u32 (UInt32.ofNat v))
  | .s64 => do
    let v ← word 8
    pure (.s64 (UInt64.ofNat v).toInt64)
  | .u64 => do
    let v ← word 8
    pure (.u64 (UInt64.ofNat v))
  | .dummy8 => do
    let bytes ← setCellBytes bytes
    pure (.dummy8Array bytes)

/-- The cells that were read, and the window. -/
structure ReadCells where
  cells : List ParamCell := []
  bits : Option BitReadState := none

/-- One round of the loop of `sfi_param_apply_paramdef_to_row`, which does not look ahead. -/
def readCell (parentRow : Nat) (data : List UInt8) (entry : FieldLayoutEntry) (_rest : List FieldLayoutEntry)
    (s : ReadCells) : Fallible Heap SfError ReadCells :=
  if entry.isBitField then do
    let (value, bits) ← lift (readLayoutBitCell bigEndian entry data s.bits)
    pure ⟨s.cells ++ [initCellFromLayout entry parentRow value], some bits⟩
  else do
    let value ← readNonbitCell os bigEndian entry.displayType entry.arrayLength data entry.byteOffset entry.byteCount
    pure ⟨s.cells ++ [initCellFromLayout entry parentRow value], s.bits⟩

/-- The loop over the entries of a layout. -/
def readCells (parentRow : Nat) (data : List UInt8) (layout : FieldLayout) : Fallible Heap SfError (List ParamCell) := do
  let s ← sweep (readCell os bigEndian parentRow data) layout.entries {}
  pure s.cells

end Reading

/-! ## Writing -/

section Writing

variable (os : Win32) (bigEndian : Bool)

/-- `bit_write_state_t` of a window that is active. -/
structure BitWriteState where
  bitOffset : Nat
  bitLimit : Nat
  window : ByteArr 8

/-- The bytes that are made, how far they are written, and the window. -/
structure WrittenCells where
  out : List UInt8
  offset : Nat := 0
  bits : Option BitWriteState := none

/-- A window of zeros. -/
def emptyWindow (bitLimit : Nat) : BitWriteState := ⟨0, bitLimit, ⟨List.replicate 8 0, rfl⟩⟩

/-- `flush_write_bits`. -/
def flushWriteBits (s : WrittenCells) : Except SfError WrittenCells :=
  match s.bits with
  | none => .ok s
  | some bits => do
    checkRange s.offset (bits.bitLimit / 8) s.out.length
    let out ← storeBitWindow s.out s.offset (bits.bitLimit / 8) (loadU64Le bits.window) bigEndian
    pure ⟨out, s.offset + bits.bitLimit / 8, none⟩

/-- `cell_bit_value`. -/
def cellBitValue (cell : ParamCell) : UInt64 :=
  match cell.value with
  | .s8 v => v.toUInt8.toUInt64
  | .u8 v => v.toUInt64
  | .s16 v => v.toUInt16.toUInt64
  | .u16 v => v.toUInt64
  | .s32 v => v.toUInt32.toUInt64
  | .u32 v => v.toUInt64
  | .dummy8Bit v => v.toUInt64
  | _ => 0

/-- `next_requires_bit_flush`: the window ends if the next cell does not go into it. -/
def nextRequiresBitFlush (rest : List ParamCell) (bits : BitWriteState) : Bool :=
  match rest with
  | [] => true
  | next :: _ =>
    !next.displayType.isBitType || next.bitSize = -1 || next.displayType.bitLimit ≠ bits.bitLimit ||
      next.bitSize.toInt ≤ 0 || bits.bitLimit < bits.bitOffset + next.bitSize.toInt.toNat

/-- The window for a cell: the one that is active if it has room. -/
def writeBitWindow (bitLimit bitSize : Nat) (s : WrittenCells) : Except SfError (WrittenCells × BitWriteState) :=
  let bits := s.bits.getD (emptyWindow bitLimit)
  if bits.bitLimit ≠ bitLimit ∨ bits.bitLimit < bits.bitOffset + bitSize then do
    let s ← flushWriteBits bigEndian { s with bits := some bits }
    pure (s, emptyWindow bitLimit)
  else .ok (s, bits)

/-- `write_bit_cell`. -/
def writeBitCell (cell : ParamCell) (rest : List ParamCell) (s : WrittenCells) : Except SfError WrittenCells :=
  if cell.bitSize.toInt ≤ 0 then .error .badMagic
  else if cell.displayType.bitLimit = 0 ∨ cell.displayType.bitLimit < cell.bitSize.toInt.toNat then .error .badMagic
  else do
    let bitSize := cell.bitSize.toInt.toNat
    let (s, bits) ← writeBitWindow bigEndian cell.displayType.bitLimit bitSize s
    let window ← insertBits bits.window bits.bitOffset bitSize (cellBitValue cell)
    let bits : BitWriteState := ⟨bits.bitOffset + bitSize, bits.bitLimit, window⟩
    let s := { s with bits := some bits }
    if nextRequiresBitFlush rest bits then flushWriteBits bigEndian s else pure s

/-- `write_bytes_cell`. -/
def writeBytesCell (bytes : List UInt8) (s : WrittenCells) : Except SfError WrittenCells := do
  checkRange s.offset bytes.length s.out.length
  pure { s with out := overwrite s.out s.offset bytes, offset := s.offset + bytes.length }

/-- A text that was converted, cut at the size of its field. -/
def writeTextCell (size : Nat) (raw : List UInt8) (s : WrittenCells) : WrittenCells :=
  { s with out := overwrite s.out s.offset (raw.take size), offset := s.offset + size }

/-- `write_nonbit_cell`. -/
def writeNonbitCell (cell : ParamCell) (s : WrittenCells) : Fallible Heap SfError WrittenCells := do
  let size := fieldByteCount cell.displayType cell.byteCount cell.arrayLength
  check (size ≠ 0) .badMagic
  lift (checkRange s.offset size s.out.length)
  let word (n v : Nat) : Fallible Heap SfError WrittenCells := do
    let out ← lift (storeWord s.out s.offset n v bigEndian)
    pure { s with out := out, offset := s.offset + size }
  match cell.value with
  | .s8 v => word 1 v.toUInt8.toNat
  | .u8 v => word 1 v.toNat
  -- only in a window
  | .dummy8Bit _ => fail .internal
  | .s16 v => word 2 v.toUInt16.toNat
  | .u16 v => word 2 v.toNat
  | .s32 v => word 4 v.toUInt32.toNat
  | .u32 v => word 4 v.toNat
  | .s64 v => word 8 v.toUInt64.toNat
  | .u64 v => word 8 v.toNat
  | .b32 v => word 4 v.toNat
  | .f32 v => word 4 v.toNat
  | .angle32 v => word 4 v.toNat
  | .f64 v => word 8 v.toNat
  | .u8Array bytes => lift (writeBytesCell bytes s)
  | .dummy8Array bytes => lift (writeBytesCell bytes s)
  | .fixstr utf8 => do
    let raw ← utf8ToShiftJis os (some utf8) true
    pure (writeTextCell size raw s)
  | .fixstrW utf8 => do
    let raw ← if bigEndian then utf8ToUtf16be os (some utf8) true else utf8ToUtf16le os (some utf8) true
    pure (writeTextCell size raw s)

/-- A cell in a window. -/
def ParamCell.isBit (cell : ParamCell) : Bool := cell.displayType.isBitType && cell.bitSize != -1

/-- One round of the loop of `sfi_param_row_cells_to_bytes`. -/
def writeCell (cell : ParamCell) (rest : List ParamCell) (s : WrittenCells) : Fallible Heap SfError WrittenCells :=
  if cell.isBit then lift (writeBitCell bigEndian cell rest s)
  else do
    let s ← lift (flushWriteBits bigEndian s)
    writeNonbitCell os bigEndian cell s

/-- `sfi_param_row_cells_to_bytes`, of a row with these cells and this size. -/
def rowCellsToBytes (cells : List ParamCell) (cellDataSize : Nat) : Fallible Heap SfError (List UInt8) :=
  if cellDataSize = 0 then pure []
  else do
    let _ ← Heap.alloc
    let s ← sweep (writeCell os bigEndian) cells ⟨List.replicate cellDataSize 0, 0, none⟩
    let s ← lift (flushWriteBits bigEndian s)
    pure s.out

end Writing

end SoulsFormats
