import SoulsFormats.Core.BinaryReader

set_option autoImplicit false

/-! # Descriptions of parameters

The model of `paramdef.c`: the fields of a description and the reader of its binary form. -/

namespace SoulsFormats

open Bytes Fallible

/-! ## Fields -/

/-- `sf_paramdef_def_type_t`. -/
inductive ParamdefDefType where
  | s8 | u8 | s16 | u16 | s32 | u32 | s64 | u64 | b32 | f32 | angle32 | f64 | dummy8 | fixstr | fixstrW
deriving DecidableEq, Repr

namespace ParamdefDefType

/-- The texts of `parse_def_type`. -/
def name : ParamdefDefType → List UInt8
  | s8 => cstr "s8"
  | u8 => cstr "u8"
  | s16 => cstr "s16"
  | u16 => cstr "u16"
  | s32 => cstr "s32"
  | u32 => cstr "u32"
  | s64 => cstr "s64"
  | u64 => cstr "u64"
  | b32 => cstr "b32"
  | f32 => cstr "f32"
  | angle32 => cstr "angle32"
  | f64 => cstr "f64"
  | dummy8 => cstr "dummy8"
  | fixstr => cstr "fixstr"
  | fixstrW => cstr "fixstrW"

def all : List ParamdefDefType :=
  [s8, u8, s16, u16, s32, u32, s64, u64, b32, f32, angle32, f64, dummy8, fixstr, fixstrW]

/-- `is_array_type`. -/
def isArray : ParamdefDefType → Bool
  | u8 | dummy8 | fixstr | fixstrW => true
  | _ => false

/-- `sf_param_util_get_value_size`. -/
def valueSize : ParamdefDefType → Nat
  | s8 | u8 | dummy8 | fixstr => 1
  | s16 | u16 | fixstrW => 2
  | s32 | u32 | b32 | f32 | angle32 => 4
  | f64 | s64 | u64 => 8

/-- `sf_param_util_is_bit_type`. -/
def isBitType : ParamdefDefType → Bool
  | s8 | u8 | s16 | u16 | s32 | u32 | dummy8 => true
  | _ => false

/-- `sf_param_util_get_bit_limit`. -/
def bitLimit : ParamdefDefType → Nat
  | s8 | u8 | dummy8 => 8
  | s16 | u16 => 16
  | s32 | u32 => 32
  | _ => 0

/-- The member of the union of a default value that belongs to a type. A float is given by its bits. -/
abbrev Value : ParamdefDefType → Type
  | s8 => Int8
  | u8 => UInt8
  | s16 => Int16
  | u16 => UInt16
  | s32 => Int32
  | u32 | b32 | f32 | angle32 => UInt32
  | s64 => Int64
  | u64 | f64 => UInt64
  | dummy8 | fixstr | fixstrW => Unit

theorem valueSize_pos (t : ParamdefDefType) : 0 < t.valueSize := by cases t <;> decide

theorem bitLimit_le (t : ParamdefDefType) : t.bitLimit ≤ 32 := by cases t <;> decide

/-- A window holds 1, 2 or 4 bytes. -/
theorem bitLimit_of_isBitType {t : ParamdefDefType} (h : t.isBitType = true) : t.bitLimit = 8 * t.valueSize := by
  cases t <;> first | rfl | cases h

end ParamdefDefType

/-- `sf_paramdef_default_value_t`. -/
structure ParamdefDefaultValue where
  type : ParamdefDefType
  v : type.Value

/-- `sf_paramdef_field`. -/
structure ParamdefField where
  displayName : List UInt8
  internalType : List UInt8
  internalName : List UInt8
  description : List UInt8
  displayFormat : List UInt8
  displayType : ParamdefDefType
  defaultValue : ParamdefDefaultValue
  minimum : ParamdefDefaultValue
  maximum : ParamdefDefaultValue
  increment : ParamdefDefaultValue
  editFlags : Int32
  byteCount : Int32
  bitSize : Int32
  arrayLength : Int32
  sortId : Int32
  firstRegulationVersion : UInt64 := 0
  removedRegulationVersion : UInt64 := 0

/-- What the header of a description says. -/
structure ParamdefHeader where
  paramType : List UInt8
  dataVersion : Int16
  formatVersion : Int16
  bigEndian : Bool
  unicode : Bool
  basicFields : Bool

/-- `sf_paramdef`, without the cache of its layout. -/
structure Paramdef extends ParamdefHeader where
  fields : List ParamdefField
  rowSize : Int32
  index : Int32 := -1
  versionAware : Bool := false

/-! ## The size of a row -/

/-- A field that was removed does not count. -/
def ParamdefField.isRemoved (versionAware : Bool) (f : ParamdefField) : Bool :=
  versionAware && f.removedRegulationVersion != 0

/-- A field of some bits. -/
def ParamdefField.isBitField (f : ParamdefField) : Bool := f.displayType.isBitType && f.bitSize != -1

/-- A sum of `int32_t`s. -/
def int32Add (a b : Int) : Except SfError Int :=
  if -2 ^ 31 ≤ a + b ∧ a + b ≤ INT32_MAX then .ok (a + b) else .error .undefinedBehaviour

/-- What a field adds to the size of a row. -/
def ParamdefField.countedSize (f : ParamdefField) : Except SfError Int :=
  if f.displayType.isArray then
    let product := f.displayType.valueSize * max f.arrayLength.toInt 0
    if product ≤ INT32_MAX then .ok product else .error .undefinedBehaviour
  else .ok f.displayType.valueSize

/-- The bits that are taken of the window with a limit and a number of taken bits if the field is folded into it. -/
def ParamdefField.foldInto (f : ParamdefField) : Option (Nat × Int) → Except SfError (Option Int)
  | none => .ok none
  | some (bitLimit, bitOffset) =>
    if f.isBitField ∧ f.displayType.bitLimit = bitLimit then do
      let next ← int32Add bitOffset f.bitSize.toInt
      pure (if next ≤ bitLimit then some next else none)
    else .ok none

/-- The loop of `sf_paramdef_internal_compute_row_size`. While the inner loop folds fields into the window of the
    last counted one, `window` is the limit and the number of taken bits. -/
def computeRowSizeFrom (versionAware : Bool) : Int → Option (Nat × Int) → List ParamdefField → Except SfError Int
  | size, _, [] => .ok size
  | size, window, f :: rest =>
    if f.isRemoved versionAware then computeRowSizeFrom versionAware size window rest
    else do
      match ← f.foldInto window with
      | some bitOffset => computeRowSizeFrom versionAware size (some (f.displayType.bitLimit, bitOffset)) rest
      | none =>
        let added ← f.countedSize
        let size ← int32Add size added
        let window := if f.isBitField then some (f.displayType.bitLimit, f.bitSize.toInt) else none
        computeRowSizeFrom versionAware size window rest

/-- `sf_paramdef_internal_compute_row_size`. -/
def computeRowSize (versionAware : Bool) (fields : List ParamdefField) : Except SfError Int :=
  computeRowSizeFrom versionAware 0 none fields

/-! ## Names of fields -/

/-- `isspace` in the C locale. -/
def isSpace (b : UInt8) : Bool := b = 0x20 || (0x09 ≤ b && b ≤ 0x0D)

/-- The characters that `trim_ascii_in_place` takes off. -/
def isTrimmed (b : UInt8) : Bool := b = 0x20 || b = 0x09 || b = 0x0D || b = 0x0A

/-- `trim_ascii_in_place`. -/
def trimAscii (s : List UInt8) : List UInt8 :=
  (((cText s).dropWhile isTrimmed).reverse.dropWhile isTrimmed).reverse

/-- `strrchr`: the text before and behind the last occurrence of a character. -/
def splitLast (c : UInt8) (s : List UInt8) : Option (List UInt8 × List UInt8) :=
  if c ∈ s then
    let behind := (s.reverse.takeWhile (· ≠ c)).reverse
    some (s.take (s.length - behind.length - 1), behind)
  else none

/-- The value of a text of digits. -/
def digitsValue (ds : List UInt8) : Nat := ds.foldl (fun n d => n * 10 + (d.toNat - 0x30)) 0

/-- The sign that a number starts with, and what follows it. -/
def takeSign : List UInt8 → Bool × List UInt8
  | [] => (false, [])
  | b :: s => if b = 0x2D then (true, s) else if b = 0x2B then (false, s) else (false, b :: s)

/-- What `strtol` and `strtoul` recognize in base 10: whether there is a minus sign, the digits' number, and where
    the text goes on. Without a digit nothing is recognized. -/
def scanLong (s : List UInt8) : Option (Bool × Nat × List UInt8) :=
  let (negative, s) := takeSign (s.dropWhile isSpace)
  let digits := s.takeWhile isDigit
  if digits = [] then none else some (negative, digitsValue digits, s.dropWhile isDigit)

/-- The number with its sign. -/
def signedValue (negative : Bool) (n : Nat) : Int := if negative then -(n : Int) else n

/-- `strtol` to base 10, for a `long` of 32 bits: the value and the text behind it, or nothing where there is no
    number. -/
def strtol (s : List UInt8) : Option (Int × List UInt8) := do
  let (negative, n, rest) ← scanLong s
  some (max (-2 ^ 31) (min (signedValue negative n) INT32_MAX), rest)

/-- The name and the size in bits that a name such as `flags:3` says. -/
def parseBitSuffix (name : List UInt8) : Option (List UInt8 × Int32) :=
  match splitLast 0x3A name with
  | none => none
  | some (before, behind) =>
    match strtol behind with
    | some (bits, []) => if 0 ≤ bits ∧ bits ≤ INT32_MAX then some (before, Int32.ofInt bits) else none
    | _ => none

/-- The name and the length that a name such as `pad[4]` says. -/
def parseArraySuffix (name : List UInt8) : Option (List UInt8 × Int32) :=
  if name.length < 3 ∨ name.getLast? ≠ some 0x5D then none
  else
    match splitLast 0x5B name with
    | none => none
    | some (before, behind) =>
      match strtol behind with
      | some (namedLen, [_]) =>
        if 0 < namedLen ∧ namedLen ≤ INT32_MAX then some (before, Int32.ofInt namedLen) else none
      | _ => none

/-- What `parse_internal_name` makes of the name, the size in bits and the length of a field. -/
def parseInternalName (type : ParamdefDefType) (name : List UInt8) (arrayLength : Int32) :
    List UInt8 × Int32 × Int32 :=
  match parseBitSuffix name with
  | some (name, bits) => (name, bits, arrayLength)
  | none =>
    if type.isArray then
      match parseArraySuffix name with
      | some (before, namedLen) =>
        -- an array of bytes can only be cut
        if namedLen ≠ arrayLength ∧ type ≠ .u8 ∧ type ≠ .dummy8 then (before, -1, namedLen)
        else if namedLen.toInt < arrayLength.toInt then (before, -1, namedLen)
        else (before, -1, arrayLength)
      | none => (name, -1, arrayLength)
    else (name, -1, arrayLength)

/-! ## Reading -/

section Reading

open BinaryReader

/-- `is_supported_version`. -/
def paramdefVersions : List Int16 := [0, 101, 102, 103, 104, 106, 201, 202, 203]

/-- `expected_field_size`. -/
def expectedFieldSize (version : Int16) : Int16 :=
  if version = 0 then 0x68
  else if version = 101 then 0x8C
  else if version = 102 then 0xAC
  else if version = 103 then 0x6C
  else if version = 104 then 0xB0
  else if version = 106 then 0x48
  else if version = 201 then 0xD0
  else if version = 202 then 0x68
  else if version = 203 then 0x88
  else -1

/-- The names stand behind offsets. -/
def hasNameOffsets (version : Int16) : Bool :=
  202 ≤ version.toInt ∨ (106 ≤ version.toInt ∧ version.toInt < 200)

def assertI64 (options : List Int64) : ReadM Int64 := defineAssertMulti readI64 options

/-- `parse_def_type`. -/
def parseDefType (s : List UInt8) : Option ParamdefDefType := ParamdefDefType.all.find? fun t => t.name = cText s

/-- `read_var_offset`. -/
def readVarOffset : ReadM Int64 := readVarint

/-- `read_nonzero_string_at`. -/
def readNonzeroStringAt (os : Win32) (off : Int64) (utf16 : Bool) : ReadM (Option (List UInt8)) :=
  if off = 0 then pure none
  else do
    let s ← if utf16 then getUtf16 os off.toInt else getShiftJis os off.toInt
    pure (some s)

/-- A text that may be missing; `sf_strdup` makes an empty one. -/
def orEmpty : Option (List UInt8) → ReadM (List UInt8)
  | some s => pure s
  | none => do
    let _ ← onHeap Heap.alloc
    pure []

/-- `set_default_f32`. -/
def setDefaultF32 (value : UInt32) : ParamdefDefaultValue := ⟨.f32, value⟩

/-- A default that is not stored. -/
def noDefault : ParamdefDefaultValue := ⟨.s8, (0 : Int8)⟩

/-- A value of 32 bits and the zero behind it. -/
def readPadded {α : Type} (m : ReadM α) : ReadM α := do
  let v ← m
  let _ ← assertI32 [0]
  pure v

/-- `read_variable_value`. -/
def readVariableValue : (type : ParamdefDefType) → ReadM ParamdefDefaultValue
  | .s8 => do
    let i32 ← readPadded readI32
    pure ⟨.s8, i32.toInt8⟩
  | .u8 => do
    let i32 ← readPadded readI32
    pure ⟨.u8, i32.toUInt32.toUInt8⟩
  | .s16 => do
    let i32 ← readPadded readI32
    pure ⟨.s16, i32.toInt16⟩
  | .u16 => do
    let i32 ← readPadded readI32
    pure ⟨.u16, i32.toUInt32.toUInt16⟩
  | .s32 => do
    let i32 ← readPadded readI32
    pure ⟨.s32, i32⟩
  | .u32 => do
    let u32 ← readPadded readU32
    pure ⟨.u32, u32⟩
  | .b32 => do
    let u32 ← readPadded readU32
    pure ⟨.b32, u32⟩
  | .s64 => do
    let i64 ← readI64
    pure ⟨.s64, i64⟩
  | .u64 => do
    let u64 ← readU64
    pure ⟨.u64, u64⟩
  | .f32 => do
    let f32 ← readPadded readF32
    pure ⟨.f32, f32⟩
  | .angle32 => do
    let f32 ← readPadded readF32
    pure ⟨.angle32, f32⟩
  | .f64 => do
    let f64 ← readF64
    pure ⟨.f64, f64⟩
  | .dummy8 => do
    let _ ← assertI64 [0]
    pure ⟨.dummy8, ()⟩
  | .fixstr => do
    let _ ← assertI64 [0]
    pure ⟨.fixstr, ()⟩
  | .fixstrW => do
    let _ ← assertI64 [0]
    pure ⟨.fixstrW, ()⟩

/-- The display name of a field. -/
def readDisplayName (os : Win32) (h : ParamdefHeader) : ReadM (List UInt8) :=
  if hasNameOffsets h.formatVersion then do
    let off ← readVarOffset
    getUtf16 os off.toInt
  else if h.unicode then readFixStrW os 0x40
  else readFixStr os 0x40

/-- A name of a field that is not displayed: behind an offset, or in the record. -/
def readPlainName (os : Win32) (h : ParamdefHeader) : ReadM (List UInt8) :=
  if hasNameOffsets h.formatVersion then do
    let off ← readVarOffset
    let s ← if off = 0 then pure none
      else do
        let s ← getAscii off.toInt
        pure (some s)
    orEmpty s
  else readFixStr os 0x20

/-- The default, the bounds and the increment of a field. -/
structure ParamdefValues where
  defaultValue : ParamdefDefaultValue
  minimum : ParamdefDefaultValue
  maximum : ParamdefDefaultValue
  increment : ParamdefDefaultValue

def readF32Values : ReadM ParamdefValues := do
  let d ← readF32
  let lo ← readF32
  let hi ← readF32
  let inc ← readF32
  pure ⟨setDefaultF32 d, setDefaultF32 lo, setDefaultF32 hi, setDefaultF32 inc⟩

def readVariableValues (type : ParamdefDefType) : ReadM ParamdefValues := do
  let d ← readVariableValue type
  let lo ← readVariableValue type
  let hi ← readVariableValue type
  let inc ← readVariableValue type
  pure ⟨d, lo, hi, inc⟩

/-- The type of a field. -/
def readDefType (os : Win32) : ReadM ParamdefDefType := do
  let typeName ← readFixStr os 8
  match parseDefType (trimAscii typeName) with
  | some type => pure type
  | none => fail .badMagic

/-- The values behind the formats, in front of the flags. -/
def readEarlyValues (version : Int16) : ReadM ParamdefValues :=
  if 203 ≤ version.toInt then do
    assertPattern 0x10 0
    pure ⟨noDefault, noDefault, noDefault, noDefault⟩
  else readF32Values

/-- The size of a field in bytes, which has to fit its type. -/
def readByteCount (type : ParamdefDefType) : ReadM Int32 := do
  let byteCount ← readI32
  check (0 ≤ byteCount.toInt) .badMagic
  if type.isArray then check (byteCount.toInt.toNat % type.valueSize = 0) .badMagic
  else check (byteCount.toInt = type.valueSize) .badMagic
  pure byteCount

/-- The three empty texts of a field of the basic format, which are all asked for before one is looked at. -/
def readEmptyNames : ReadM Unit := do
  let a ← attempt (onHeap Heap.alloc)
  let b ← attempt (onHeap Heap.alloc)
  let c ← attempt (onHeap Heap.alloc)
  match a, b, c with
  | .ok _, .ok _, .ok _ => pure ()
  | _, _, _ => fail .oom

/-- The text behind an offset, or an empty one. -/
def readDescription (os : Win32) (h : ParamdefHeader) : ReadM (List UInt8) := do
  let descriptionOffset ← readVarOffset
  let description ← readNonzeroStringAt os descriptionOffset h.unicode
  orEmpty description

/-- The name that the program uses, from version 102 on. -/
def readInternalName (os : Win32) (h : ParamdefHeader) (type : ParamdefDefType) (arrayLength : Int32) :
    ReadM (List UInt8 × Int32 × Int32) :=
  if 102 ≤ h.formatVersion.toInt then do
    let name ← readPlainName os h
    pure (parseInternalName type (trimAscii name) arrayLength)
  else do
    let _ ← onHeap Heap.alloc
    pure ([], -1, arrayLength)

/-- The words that are not kept. -/
def readUnknownWords (version : Int16) : ReadM Unit :=
  if 200 ≤ version.toInt then do
    let _ ← assertI32 [0]
    let _ ← readVarOffset
    let _ ← readVarOffset
    let _ ← readVarOffset
    pure ()
  else if 106 ≤ version.toInt then do
    let _ ← assertI32 [0]
    let _ ← assertI32 [0]
    let _ ← assertI32 [0]
    pure ()
  else pure ()

/-- `read_field`. -/
def readField (os : Win32) (h : ParamdefHeader) : ReadM ParamdefField := do
  let displayName ← readDisplayName os h
  let type ← readDefType os
  let displayFormat ← readFixStr os 8
  let early ← readEarlyValues h.formatVersion
  let editFlags ← readI32
  let byteCount ← readByteCount type
  let arrayLength := Int32.ofInt (byteCount.toInt / type.valueSize)
  if h.basicFields then do
    readEmptyNames
    pure ⟨displayName, [], [], [], trimAscii displayFormat, type, early.defaultValue, early.minimum, early.maximum,
      early.increment, editFlags, byteCount, -1, arrayLength, 0, 0, 0⟩
  else do
    let description ← readDescription os h
    let internalType ← readPlainName os h
    let (internalName, bitSize, arrayLength) ← readInternalName os h type arrayLength
    let sortId ← given (104 ≤ h.formatVersion.toInt) 0 readI32
    readUnknownWords h.formatVersion
    let late ← given (203 ≤ h.formatVersion.toInt) early (readVariableValues type)
    pure ⟨displayName, trimAscii internalType, internalName, description, trimAscii displayFormat, type,
      late.defaultValue, late.minimum, late.maximum, late.increment, editFlags, byteCount, bitSize, arrayLength, sortId,
      0, 0⟩

/-- `read_param_type`. -/
def readParamType (os : Win32) (version : Int16) : ReadM (List UInt8) :=
  if 202 ≤ version.toInt then do
    let _ ← assertI32 [0]
    let off ← readI64
    let paramType ← getShiftJis os off.toInt
    let _ ← assertI64 [0]
    let _ ← assertI64 [0]
    let _ ← assertI32 [0]
    pure paramType
  else if 106 ≤ version.toInt ∧ version.toInt < 200 then do
    let off32 ← readI32
    let paramType ← getShiftJis os off32.toInt
    let _ ← assertI64 [0]
    let _ ← assertI64 [0]
    let _ ← assertI64 [0]
    let _ ← assertI32 [0]
    pure paramType
  else readFixStr os 0x20

/-- The header, and the number of fields. -/
def readParamdefHeader (os : Win32) : ReadM (ParamdefHeader × Nat) := do
  let endianByte ← getU8 0x2C
  check (endianByte ∈ [0x00, 0x01, 0xFF]) .badMagic
  let bigEndian := decide (endianByte = 0x01)
  setBigEndian bigEndian
  let formatVersion ← getI16 0x2E
  check (formatVersion ∈ paramdefVersions) .unsupportedVersion
  setVarintLong (200 ≤ formatVersion.toInt)
  onStream (IStream.seek 0)
  let _ ← onHeap Heap.alloc
  let _ ← readI32
  let headerSize ← readI16
  let dataVersion ← readI16
  let fieldCount ← readI16
  let fieldSize ← readI16
  check (0 ≤ fieldCount.toInt) .badMagic
  check (headerSize = if 200 ≤ formatVersion.toInt then 0xFF else 0x30) .badMagic
  check (fieldSize = expectedFieldSize formatVersion) .badMagic
  let paramType ← readParamType os formatVersion
  let headerEndian ← readU8
  check (headerEndian = endianByte) .badMagic
  let unicode ← readBool
  let versionInHeader ← readI16
  check (versionInHeader = formatVersion) .unsupportedVersion
  given (200 ≤ formatVersion.toInt) () do
    let _ ← assertI64 [0x38]
    pure ()
  pure (⟨paramType, dataVersion, formatVersion, bigEndian, unicode, formatVersion = 0⟩, fieldCount.toInt.toNat)

/-- What `paramdef_read` has read before it computes the size of a row. -/
def readParamdefFields (os : Win32) : ReadM (ParamdefHeader × List ParamdefField) := do
  let (h, fieldCount) ← readParamdefHeader os
  given (0 < fieldCount) () do
    let _ ← onHeap Heap.alloc
    pure ()
  let fields ← readEach (readField os h) fieldCount
  pure (h, fields)

end Reading

end SoulsFormats
