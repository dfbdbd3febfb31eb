import SoulsFormats.Core.BinaryReader
import SoulsFormats.Core.BinaryWriter

set_option autoImplicit false

/-! # PARAMDBP schemas

The model of the first half of `paramdbp.c`. A file has the number of its fields, a word for each of them,
their types and values, and then their names; nothing in it says in which byte order it is stored. -/

namespace SoulsFormats

open Bytes Fallible

/-- `sf_dbp_type_t`. -/
inductive DbpType where
  | s8 | u8 | s16 | u16 | s32 | u32 | f32
deriving DecidableEq, Repr

/-- The value of the enumerator. -/
def DbpType.toInt32 : DbpType → Int32
  | .s8 => 0
  | .u8 => 1
  | .s16 => 2
  | .u16 => 3
  | .s32 => 4
  | .u32 => 5
  | .f32 => 6

/-- The enumerator of a value; other values of the C enumeration have no name. -/
def DbpType.ofInt32 (v : Int32) : Option DbpType :=
  match v.toInt with
  | 0 => some .s8
  | 1 => some .u8
  | 2 => some .s16
  | 3 => some .u16
  | 4 => some .s32
  | 5 => some .u32
  | 6 => some .f32
  | _ => none

@[simp] theorem DbpType.ofInt32_toInt32 (t : DbpType) : DbpType.ofInt32 t.toInt32 = some t := by
  cases t <;> rfl

/-- `dbp_type_size`. -/
def dbpTypeSize : DbpType → Nat
  | .s8 | .u8 => 1
  | .s16 | .u16 => 2
  | .s32 | .u32 | .f32 => 4

/-- The member of `sf_dbp_value_t` that a type selects; a float is given by its bits. -/
abbrev DbpType.Value : DbpType → Type
  | .s8 => Int8
  | .u8 => UInt8
  | .s16 => Int16
  | .u16 => UInt16
  | .s32 => Int32
  | .u32 => UInt32
  | .f32 => UInt32

/-- `sf_paramdbp_field_t`. -/
structure ParamdbpField where
  type : DbpType
  displayName : Option (List UInt8)
  displayFormat : Option (List UInt8)
  defaultVal : type.Value
  increment : type.Value
  minimum : type.Value
  maximum : type.Value

/-- `sf_paramdbp_t`. -/
structure Paramdbp where
  bigEndian : Bool
  fields : List ParamdbpField
  fieldCap : Nat

/-! ## Building -/

/-- `sf_paramdbp_create`. -/
def paramdbpCreate (bigEndian : Bool) : Fallible Heap SfError Paramdbp := do
  let _ ← Heap.alloc
  pure ⟨bigEndian, [], 0⟩

/-- The copy of a name, which ends at its first NUL. -/
def paramdbpCopyName : Option (List UInt8) → Fallible Heap SfError (Option (List UInt8))
  | none => pure none
  | some name => do
    let _ ← Heap.alloc
    pure (some (cText name))

/-- The array of fields doubles when it is full. -/
def paramdbpGrow (d : Paramdbp) : Fallible Heap SfError Paramdbp :=
  if d.fieldCap ≤ d.fields.length then do
    let _ ← Heap.alloc
    pure { d with fieldCap := if d.fieldCap = 0 then 8 else d.fieldCap * 2 }
  else pure d

/-- `sf_paramdbp_add_field`. -/
def paramdbpAddField (d : Paramdbp) (field : ParamdbpField) : Fallible Heap SfError Paramdbp := do
  let d ← paramdbpGrow d
  let displayName ← paramdbpCopyName field.displayName
  let displayFormat ← paramdbpCopyName field.displayFormat
  pure { d with fields := d.fields ++ [{ field with displayName, displayFormat }] }

def paramdbpAddFields : Paramdbp → List ParamdbpField → Fallible Heap SfError Paramdbp
  | d, [] => pure d
  | d, field :: fields => do
    let d ← paramdbpAddField d field
    paramdbpAddFields d fields

/-- A schema built with the calls of the interface. -/
def paramdbpBuild (bigEndian : Bool) (fields : List ParamdbpField) : Fallible Heap SfError Paramdbp := do
  let d ← paramdbpCreate bigEndian
  paramdbpAddFields d fields

/-! ## Reading -/

section Reading

open BinaryReader

/-- `read_dbp_value`. -/
def readDbpValue : (t : DbpType) → ReadM t.Value
  | .s8 => readI8
  | .u8 => readU8
  | .s16 => readI16
  | .u16 => readU16
  | .s32 => readI32
  | .u32 => readU32
  | .f32 => readF32

/-- The type and the values of a field, which has no names yet. -/
def paramdbpReadField : ReadM ParamdbpField := do
  let typeVal ← readI32
  let _ ← readI32
  let _ ← readI32
  match DbpType.ofInt32 typeVal with
  | none => fail .invalidArg
  | some type => do
    let defaultVal ← readDbpValue type
    let increment ← readDbpValue type
    let minimum ← readDbpValue type
    let maximum ← readDbpValue type
    pure ⟨type, none, none, defaultVal, increment, minimum, maximum⟩

def paramdbpReadNames (os : Win32) : List ParamdbpField → ReadM (List ParamdbpField)
  | [] => pure []
  | field :: fields => do
    let name ← readShiftJis os
    let fmt ← readShiftJis os
    let rest ← paramdbpReadNames os fields
    pure ({ field with displayName := some name, displayFormat := some fmt } :: rest)

/-- The count once more, in the other byte order. -/
def paramdbpReadSwapped : ReadM Int32 := do
  setBigEndian false
  stepIn 0
  let fieldCount ← attempt readI32
  let _ ← attempt stepOut
  lift fieldCount

/-- What comes after the count. -/
def paramdbpReadBody (os : Win32) (bigEndian : Bool) (fieldCount : Int32) : ReadM Paramdbp := do
  let d ← onHeap (paramdbpCreate bigEndian)
  let _ ← readI32
  let _ ← readI32
  let _ ← readI32
  let _ ← readEach readI32 fieldCount.toInt.toNat
  -- the size of a negative count wraps to nearly all of a `size_t`
  check (0 ≤ fieldCount.toInt) .oom
  let _ ← onHeap Heap.alloc
  let tmp ← readEach paramdbpReadField fieldCount.toInt.toNat
  let tmp ← paramdbpReadNames os tmp
  onHeap (paramdbpAddFields d tmp)

/-- What `sf_paramdbp_read_from_memory` does with its reader. A count that does not fit into the file shows
    that the other byte order is meant. -/
def paramdbpRead (os : Win32) : ReadM Paramdbp := do
  let size ← peek length
  let fieldCount ← readI32
  let swapped := decide (fieldCount.toInt < 0 ∨ size < fieldCount.toInt)
  let fieldCount ← given swapped fieldCount paramdbpReadSwapped
  paramdbpReadBody os (!swapped) fieldCount

/-- `sf_paramdbp_read_from_memory`. -/
def paramdbpReadFromMemory (os : Win32) (flexible : Bool) (data : List UInt8) : Fallible Heap SfError Paramdbp :=
  onMemory data true flexible (paramdbpRead os)

end Reading

/-! ## Writing -/

section Writing

open BinaryWriter

/-- `write_dbp_value`. -/
def writeDbpValue : (t : DbpType) → t.Value → WriteM Unit
  | .s8, v => writeI8 v
  | .u8, v => writeU8 v
  | .s16, v => writeI16 v
  | .u16, v => writeU16 v
  | .s32, v => writeI32 v
  | .u32, v => writeU32 v
  | .f32, v => writeF32 v

def paramdbpWriteField (f : ParamdbpField) : WriteM Unit := do
  writeI32 f.type.toInt32
  writeI32 0
  writeI32 0
  writeDbpValue f.type f.defaultVal
  writeDbpValue f.type f.increment
  writeDbpValue f.type f.minimum
  writeDbpValue f.type f.maximum

def paramdbpWriteNames (os : Win32) (f : ParamdbpField) : WriteM Unit := do
  writeShiftJis os (some (f.displayName.getD [])) true
  writeShiftJis os (some (f.displayFormat.getD [])) true

/-- What `sf_paramdbp_write_to_memory` does with its writer. -/
def paramdbpWrite (os : Win32) (d : Paramdbp) : WriteM Unit := do
  writeI32 (Int32.ofNat d.fields.length)
  writeI32 0
  writeI32 0
  writeI32 0
  writeEach (fun _ => writeI32 0) d.fields
  writeEach paramdbpWriteField d.fields
  writeEach (paramdbpWriteNames os) d.fields

/-- `sf_paramdbp_write_to_memory`. -/
def paramdbpWriteToMemory (os : Win32) (d : Paramdbp) : Fallible Heap SfError (List UInt8) :=
  writeToMemory d.bigEndian (paramdbpWrite os d)

end Writing

end SoulsFormats
