import SoulsFormats.Library.Sweep
import SoulsFormats.Param.Paramdef

set_option autoImplicit false

/-! # The layout of a row

`build_field_layout` of `paramdef_apply.c`: bit fields share a window of 8, 16 or 32 bits as long as the window
is of their width and has room, any other field stands on its own. -/

namespace SoulsFormats

open Bytes Fallible

/-- `sf_param_cell_kind_t`. -/
inductive ParamCellKind where
  | s8 | u8 | u8Array | s16 | u16 | s32 | u32 | s64 | u64 | b32 | f32 | angle32 | f64 | dummy8Bit | dummy8Array | fixstr
  | fixstrW
deriving DecidableEq, Repr

/-- `cell_kind_for_field`. -/
def cellKindForField (type : ParamdefDefType) (bitSize arrayLength : Int32) : ParamCellKind :=
  match type with
  | .s8 => .s8
  | .u8 => if bitSize = -1 ∧ 1 < arrayLength.toInt then .u8Array else .u8
  | .s16 => .s16
  | .u16 => .u16
  | .s32 => .s32
  | .u32 => .u32
  | .s64 => .s64
  | .u64 => .u64
  | .b32 => .b32
  | .f32 => .f32
  | .angle32 => .angle32
  | .f64 => .f64
  | .dummy8 => if bitSize = -1 then .dummy8Array else .dummy8Bit
  | .fixstr => .fixstr
  | .fixstrW => .fixstrW

/-- `sf_paramdef_field_layout_entry_t`. -/
structure FieldLayoutEntry where
  field : ParamdefField
  byteOffset : Nat
  byteCount : Nat := 0
  bitOffset : Nat := 0
  bitSize : Nat := 0
  bitLimit : Nat := 0
  displayType : ParamdefDefType
  cellKind : ParamCellKind
  arrayLength : Int32
  declaredByteCount : Int32
  declaredBitSize : Int32
  isBitField : Bool := false
  checkOrphanedBitsAfter : Bool := false

/-- `sf_paramdef_field_layout_t`. -/
structure FieldLayout where
  entries : List FieldLayoutEntry
  rowDataSize : Nat

/-- `field_byte_count`. -/
def fieldByteCount (type : ParamdefDefType) (byteCount arrayLength : Int32) : Nat :=
  if 0 < byteCount.toInt then byteCount.toInt.toNat
  else if arrayLength.toInt ≤ 0 then 0
  else type.valueSize * arrayLength.toInt.toNat

/-- The variables of the loop of `build_field_layout`. The window is that of the bit fields it is in, with its
    limit and the bits that are taken. -/
structure LayoutState where
  entries : List FieldLayoutEntry := []
  offset : Nat := 0
  bitsActive : Bool := false
  bitOffset : Nat := 0
  bitLimit : Nat := 0
  lastBitIndex : Option Nat := none

/-- `layout_flush_bits`. -/
def layoutFlushBits (s : LayoutState) : Except SfError LayoutState :=
  if !s.bitsActive then .ok s
  else
    match s.lastBitIndex with
    | none => .error .internal
    | some last =>
      if SIZE_MAX - s.bitLimit / 8 < s.offset then .error .outOfRange
      else .ok { s with
        entries := s.entries.modify last fun e => { e with checkOrphanedBitsAfter := true }
        offset := s.offset + s.bitLimit / 8
        bitsActive := false }

/-- The entry of a bit field at the end of the window. -/
def bitEntry (f : ParamdefField) (s : LayoutState) : FieldLayoutEntry where
  field := f
  byteOffset := s.offset
  bitOffset := s.bitOffset
  bitSize := f.bitSize.toInt.toNat
  bitLimit := s.bitLimit
  displayType := f.displayType
  cellKind := cellKindForField f.displayType f.bitSize f.arrayLength
  arrayLength := f.arrayLength
  declaredByteCount := f.byteCount
  declaredBitSize := f.bitSize
  isBitField := true

/-- The entry of a field on its own. -/
def plainEntry (f : ParamdefField) (offset : Nat) : FieldLayoutEntry where
  field := f
  byteOffset := offset
  byteCount := fieldByteCount f.displayType f.byteCount f.arrayLength
  displayType := f.displayType
  cellKind := cellKindForField f.displayType f.bitSize f.arrayLength
  arrayLength := f.arrayLength
  declaredByteCount := f.byteCount
  declaredBitSize := f.bitSize

/-- A window for a field that does not go into the one that is open. -/
def layoutOpenWindow (f : ParamdefField) (s : LayoutState) : Except SfError LayoutState :=
  if !s.bitsActive ∨ s.bitLimit ≠ f.displayType.bitLimit ∨ s.bitLimit < s.bitOffset + f.bitSize.toInt.toNat then do
    let s ← layoutFlushBits s
    pure { s with bitsActive := true, bitOffset := 0, bitLimit := f.displayType.bitLimit, lastBitIndex := none }
  else .ok s

/-- The branch for a bit field. -/
def layoutBitField (f : ParamdefField) (s : LayoutState) : Except SfError LayoutState :=
  if f.bitSize.toInt ≤ 0 then .error .badMagic
  else if f.displayType.bitLimit = 0 ∨ f.displayType.bitLimit < f.bitSize.toInt.toNat then .error .badMagic
  else do
    let s ← layoutOpenWindow f s
    pure { s with
      entries := s.entries ++ [bitEntry f s]
      lastBitIndex := some s.entries.length
      bitOffset := s.bitOffset + f.bitSize.toInt.toNat }

/-- The branch for any other field. -/
def layoutPlainField (f : ParamdefField) (s : LayoutState) : Except SfError LayoutState := do
  let s ← layoutFlushBits s
  let byteCount := fieldByteCount f.displayType f.byteCount f.arrayLength
  if byteCount = 0 then .error .badMagic
  else if SIZE_MAX - byteCount < s.offset then .error .outOfRange
  else pure { s with entries := s.entries ++ [plainEntry f s.offset], offset := s.offset + byteCount }

/-- One round of the loop of `build_field_layout`. -/
def layoutField (versionAware : Bool) (s : LayoutState) (f : ParamdefField) : Except SfError LayoutState :=
  if f.isRemoved versionAware then .ok s
  else if f.isBitField then layoutBitField f s
  else layoutPlainField f s

/-- The entries and where the last of them ends. -/
def layoutFields (versionAware : Bool) (fields : List ParamdefField) : Except SfError LayoutState := do
  let s ← fields.foldlM (layoutField versionAware) {}
  layoutFlushBits s

/-- The size of an entry in memory. -/
def fieldLayoutEntrySize : Nat := 72

/-- `build_field_layout`. -/
def buildFieldLayout (d : Paramdef) : Fallible Heap SfError FieldLayout := do
  let _ ← Heap.alloc
  given (0 < d.fields.length) () do
    check (d.fields.length ≤ SIZE_MAX / fieldLayoutEntrySize) .outOfRange
    let _ ← Heap.alloc
    pure ()
  let s ← lift (layoutFields d.versionAware d.fields)
  pure ⟨s.entries, if 0 < d.rowSize.toInt then d.rowSize.toInt.toNat else s.offset⟩

/-- The size check of `SF_PARAM_APPLY_CAREFUL`: a size that was not detected matches every description. -/
def detectedSizeMatches (detectedSize : Int64) (rowSize : Int32) : Bool :=
  detectedSize = -1 || detectedSize = rowSize.toInt64

end SoulsFormats
