import SoulsFormats.Core.Tables

set_option autoImplicit false

/-! # MTD material definitions

The model of `mtd.c`. A material is a tree of blocks, each with the length of what follows; strings and blocks end in
a marker, a byte that is padded to the next multiple of four of the file. The reader takes the blocks apart by their
contents and never looks at a length. -/

namespace SoulsFormats

open Bytes Fallible

/-- `sf_mtd_param_type_t`. -/
inductive MtdParamType where
  | bool | int | int2 | float | float2 | float3 | float4
deriving DecidableEq, Repr

/-- The member of the union that a type selects; a float is given by its bits. -/
abbrev MtdParamType.Value : MtdParamType → Type
  | .bool => Bool
  | .int => Int32
  | .int2 => CArray Int32 2
  | .float => UInt32
  | .float2 => CArray UInt32 2
  | .float3 => CArray UInt32 3
  | .float4 => CArray UInt32 4

/-- `sf_mtd_param_t`. -/
structure MtdParam where
  name : List UInt8
  type : MtdParamType
  value : type.Value

/-- `sf_mtd_texture_t`; only an extended texture has floats, and a path that is not empty. -/
structure MtdTexture where
  type : List UInt8
  uvNumber : Int32
  shaderDataIndex : Int32
  extended : Option (List UInt8 × List UInt32)

/-- `sf_mtd_t`. -/
structure Mtd where
  shaderPath : List UInt8
  description : List UInt8
  params : List MtdParam
  textures : List MtdTexture

/-- `mtd_param_type_string`. -/
def mtdParamTypeString : MtdParamType → List UInt8
  | .bool => cstr "bool"
  | .int => cstr "int"
  | .int2 => cstr "int2"
  | .float => cstr "float"
  | .float2 => cstr "float2"
  | .float3 => cstr "float3"
  | .float4 => cstr "float4"

/-- `mtd_parse_param_type`. -/
def mtdParseParamType (string : List UInt8) : Except SfError MtdParamType :=
  if string = cstr "bool" then .ok .bool
  else if string = cstr "int" then .ok .int
  else if string = cstr "int2" then .ok .int2
  else if string = cstr "float" then .ok .float
  else if string = cstr "float2" then .ok .float2
  else if string = cstr "float3" then .ok .float3
  else if string = cstr "float4" then .ok .float4
  else .error .badMagic

/-- `mtd_param_value_count`. -/
def mtdParamValueCount : MtdParamType → Int32
  | .bool | .int | .float => 1
  | .int2 | .float2 => 2
  | .float3 => 3
  | .float4 => 4

/-- `mtd_block_t`. -/
structure MtdBlock where
  start : Nat
  length : UInt32
  type : Int32
  version : Int32
  marker : UInt8

/-! ## Reading -/

section Reading

open BinaryReader

/-- `mtd_create_empty`: the material, and two empty strings that are asked for at once. -/
def mtdCreateEmpty : Fallible Heap SfError Mtd := do
  let _ ← Heap.alloc
  Heap.allocBoth
  pure ⟨[], [], [], []⟩

/-- `mtd_read_marker`. -/
def mtdReadMarker : ReadM UInt8 := do
  let marker ← readU8
  pad 4
  pure marker

/-- `mtd_assert_marker`. -/
def mtdAssertMarker (marker : UInt8) : ReadM Unit := do
  let _ ← assertU8 [marker]
  pad 4

/-- `mtd_read_marked_string`; the string ends at its first NUL. -/
def mtdReadMarkedString (os : Win32) (marker : UInt8) : ReadM (List UInt8) := do
  let length ← readI32
  check (0 ≤ length.toInt) .outOfRange
  let string ← readShiftJisN os length.toInt.toNat
  mtdAssertMarker marker
  pure (cText string)

/-- `mtd_assert_marked_string`. -/
def mtdAssertMarkedString (os : Win32) (marker : UInt8) (expected : List UInt8) : ReadM Unit := do
  let actual ← mtdReadMarkedString os marker
  check (actual = expected) .badMagic

/-- A word that has to be this one, if one is given. -/
def mtdBlockWord : Option Int32 → ReadM Int32
  | some v => do
    let _ ← assertI32 [v]
    pure v
  | none => readI32

/-- The marker of a block. -/
def mtdBlockMarker : Option UInt8 → ReadM UInt8
  | some v => do
    mtdAssertMarker v
    pure v
  | none => mtdReadMarker

/-- `mtd_block_read`. -/
def mtdBlockRead (assertType assertVersion : Option Int32) (assertMarker : Option UInt8) : ReadM MtdBlock := do
  let _ ← assertI32 [0]
  let length ← readU32
  let start ← peek position
  let type ← mtdBlockWord assertType
  let version ← mtdBlockWord assertVersion
  let marker ← mtdBlockMarker assertMarker
  pure ⟨start, length, type, version, marker⟩

section

variable (os : Win32)
-- what is done where a block ends: in the source, nothing
variable (ended : MtdBlock → ReadM Unit)

/-- A block and what it contains. -/
def mtdInBlock {α : Type} (assertType assertVersion : Option Int32) (assertMarker : Option UInt8)
    (contents : Int32 → ReadM α) : ReadM α := do
  let block ← mtdBlockRead assertType assertVersion assertMarker
  let v ← contents block.version
  ended block
  pure v

/-- The value of a type. -/
def mtdReadTyped : (t : MtdParamType) → ReadM t.Value
  | .bool => readBool
  | .int => readI32
  | .int2 => do
    let vs ← readI32s 2
    pure (CArray.ofList 2 0 vs)
  | .float => readF32
  | .float2 => do
    let vs ← readF32s 2
    pure (CArray.ofList 2 0 vs)
  | .float3 => do
    let vs ← readF32s 3
    pure (CArray.ofList 3 0 vs)
  | .float4 => do
    let vs ← readF32s 4
    pure (CArray.ofList 4 0 vs)

/-- `mtd_read_param_value`; the type, the marker and the count of the value are not looked at. -/
def mtdReadParamValue (t : MtdParamType) : ReadM t.Value :=
  mtdInBlock ended none (some 1) none fun _ => do
    let _ ← readI32
    mtdReadTyped t

/-- `mtd_read_param`. -/
def mtdReadParam : ReadM MtdParam :=
  mtdInBlock ended (some 4) (some 4) (some 0xA3) fun _ => do
    let name ← mtdReadMarkedString os 0xA3
    let typeString ← mtdReadMarkedString os 0x04
    let type ← lift (mtdParseParamType typeString)
    let _ ← assertI32 [1]
    let value ← mtdReadParamValue ended type
    mtdAssertMarker 0x04
    let _ ← assertI32 [0]
    pure ⟨name, type, value⟩

/-- What an extended texture has more than others. -/
def mtdReadExtended : ReadM (List UInt8 × List UInt32) := do
  let _ ← assertI32 [0xA3]
  let path ← mtdReadMarkedString os 0xBA
  let floatCount ← readI32
  check (0 ≤ floatCount.toInt) .outOfRange
  if floatCount.toInt = 0 then pure (path, [])
  else do
    let _ ← onHeap Heap.alloc
    let unkFloats ← readF32s floatCount.toInt.toNat
    pure (path, unkFloats)

/-- `mtd_read_texture`. -/
def mtdReadTexture : ReadM MtdTexture :=
  mtdInBlock ended (some 0x2000) none (some 0xA3) fun version => do
    check (version = 3 ∨ version = 5) .unsupportedVersion
    let type ← mtdReadMarkedString os 0x35
    let uvNumber ← readI32
    mtdAssertMarker 0x35
    let shaderDataIndex ← readI32
    if version = 3 then do
      let _ ← onHeap Heap.alloc
      pure ⟨type, uvNumber, shaderDataIndex, none⟩
    else do
      let extended ← mtdReadExtended os
      pure ⟨type, uvNumber, shaderDataIndex, some extended⟩

/-- An array behind its count. -/
def mtdReadArray {α : Type} (read : ReadM α) : ReadM (List α) := do
  let count ← readI32
  check (0 ≤ count.toInt) .outOfRange
  let _ ← given (0 < count.toInt) [] (onHeap Heap.alloc)
  readEach read count.toInt.toNat

/-- The block of the header. -/
def mtdReadHeader : ReadM Unit :=
  mtdInBlock ended (some 1) (some 2) (some 0xB0) fun _ => do
    mtdAssertMarkedString os 0x34 (cstr "MTD ")
    let _ ← assertI32 [1000]
    pure ()

/-- The block of the params and the textures. -/
def mtdReadLists : ReadM (List MtdParam × List MtdTexture) :=
  mtdInBlock ended (some 3) (some 4) (some 0xA3) fun _ => do
    let _ ← assertI32 [0]
    mtdAssertMarker 0x03
    let params ← mtdReadArray (mtdReadParam os ended)
    mtdAssertMarker 0x03
    let textures ← mtdReadArray (mtdReadTexture os ended)
    mtdAssertMarker 0x04
    let _ ← assertI32 [0]
    pure (params, textures)

/-- The block of the data. -/
def mtdReadData : ReadM Mtd :=
  mtdInBlock ended (some 2) (some 4) (some 0xA3) fun _ => do
    let shaderPath ← mtdReadMarkedString os 0xA3
    let description ← mtdReadMarkedString os 0x03
    let _ ← assertI32 [1]
    let lists ← mtdReadLists os ended
    mtdAssertMarker 0x04
    let _ ← assertI32 [0]
    pure ⟨shaderPath, description, lists.1, lists.2⟩

/-- The block of the file. -/
def mtdReadFile : ReadM Mtd :=
  mtdInBlock ended (some 0) (some 3) (some 0x01) fun _ => do
    mtdReadHeader os ended
    mtdAssertMarker 0x01
    let mtd ← mtdReadData os ended
    mtdAssertMarker 0x04
    let _ ← assertI32 [0]
    pure mtd

def mtdReadWith : ReadM Mtd := do
  let _ ← onHeap mtdCreateEmpty
  setBigEndian false
  mtdReadFile os ended

end

/-- `mtd_read_to_object`, after `mtd_create_empty`. -/
def mtdReadToObject (os : Win32) : ReadM Mtd := mtdReadWith os fun _ => pure ()

/-- `sf_mtd_read_from_memory`. -/
def mtdReadFromMemory (os : Win32) (flexible : Bool) (data : List UInt8) : Fallible Heap SfError Mtd :=
  onMemory data false flexible (mtdReadToObject os)

end Reading

/-! ## Writing -/

section Writing

open BinaryWriter

/-- `mtd_write_marker`. -/
def mtdWriteMarker (marker : UInt8) : WriteM Unit := do
  writeU8 marker
  pad 4

/-- `mtd_write_marked_string`. -/
def mtdWriteMarkedString (os : Win32) (marker : UInt8) (string : List UInt8) : WriteM Unit := do
  let bytes ← onHeap (utf8ToShiftJis os (some string) false)
  check (bytes.length ≤ INT32_MAX) .outOfRange
  writeI32 (Int32.ofNat bytes.length)
  writeBytes bytes
  mtdWriteMarker marker

/-- The name of the length of the block at `start`, `"Block%llX"`. -/
def mtdBlockName (start : Nat) : List UInt8 := cstr "Block" ++ (Nat.toDigits 16 start).map hexDigit

/-- `mtd_block_write`; the value is where the block starts. -/
def mtdBlockWrite (type version : Int32) (marker : UInt8) : WriteM Nat := do
  writeI32 0
  let position ← peek position
  reserveU32 (mtdBlockName (position + 4))
  writeI32 type
  writeI32 version
  mtdWriteMarker marker
  pure (position + 4)

/-- `mtd_block_finish`. -/
def mtdBlockFinish (start : Nat) : WriteM Unit := do
  let current ← peek position
  check (start ≤ current) .internal
  check (current - start ≤ UINT32_MAX) .outOfRange
  fillU32 (mtdBlockName start) (UInt32.ofNat (current - start))

/-- A block around its contents. -/
def mtdWriteBlock (type version : Int32) (marker : UInt8) (contents : WriteM Unit) : WriteM Unit := do
  let start ← mtdBlockWrite type version marker
  contents
  mtdBlockFinish start

/-- The type and the marker of the block of a value. -/
def mtdValueBlock : MtdParamType → Int32 × UInt8
  | .bool => (0x1000, 0xC0)
  | .int | .int2 => (0x1001, 0xC5)
  | .float | .float2 | .float3 | .float4 => (0x1002, 0xCA)

def mtdWriteTyped : (t : MtdParamType) → t.Value → WriteM Unit
  | .bool, v => writeBool v
  | .int, v => writeI32 v
  | .int2, v => writeI32s v.1
  | .float, v => writeF32 v
  | .float2, v => writeF32s v.1
  | .float3, v => writeF32s v.1
  | .float4, v => writeF32s v.1

/-- `mtd_write_param_value`. -/
def mtdWriteParamValue (t : MtdParamType) (v : t.Value) : WriteM Unit :=
  mtdWriteBlock (mtdValueBlock t).1 1 (mtdValueBlock t).2 do
    writeI32 (mtdParamValueCount t)
    mtdWriteTyped t v

section

variable (os : Win32)

/-- `mtd_write_param`. -/
def mtdWriteParam (param : MtdParam) : WriteM Unit :=
  mtdWriteBlock 4 4 0xA3 do
    mtdWriteMarkedString os 0xA3 param.name
    mtdWriteMarkedString os 0x04 (mtdParamTypeString param.type)
    writeI32 1
    mtdWriteParamValue param.type param.value
    mtdWriteMarker 0x04
    writeI32 0

/-- What an extended texture has more than others. -/
def mtdWriteExtended : Option (List UInt8 × List UInt32) → WriteM Unit
  | none => pure ()
  | some (path, unkFloats) => do
    check (unkFloats.length ≤ INT32_MAX) .outOfRange
    writeI32 0xA3
    mtdWriteMarkedString os 0xBA path
    writeI32 (Int32.ofNat unkFloats.length)
    writeF32s unkFloats

/-- `mtd_write_texture`. -/
def mtdWriteTexture (texture : MtdTexture) : WriteM Unit :=
  mtdWriteBlock 0x2000 (if texture.extended.isSome then 5 else 3) 0xA3 do
    mtdWriteMarkedString os 0x35 texture.type
    writeI32 texture.uvNumber
    mtdWriteMarker 0x35
    writeI32 texture.shaderDataIndex
    mtdWriteExtended os texture.extended

/-- The block of the header. -/
def mtdWriteHeader : WriteM Unit :=
  mtdWriteBlock 1 2 0xB0 do
    mtdWriteMarkedString os 0x34 (cstr "MTD ")
    writeI32 1000

/-- The block of the params and the textures. -/
def mtdWriteLists (mtd : Mtd) : WriteM Unit :=
  mtdWriteBlock 3 4 0xA3 do
    writeI32 0
    mtdWriteMarker 0x03
    writeI32 (Int32.ofNat mtd.params.length)
    writeEach (mtdWriteParam os) mtd.params
    mtdWriteMarker 0x03
    writeI32 (Int32.ofNat mtd.textures.length)
    writeEach (mtdWriteTexture os) mtd.textures
    mtdWriteMarker 0x04
    writeI32 0

/-- The block of the data. -/
def mtdWriteData (mtd : Mtd) : WriteM Unit :=
  mtdWriteBlock 2 4 0xA3 do
    mtdWriteMarkedString os 0xA3 mtd.shaderPath
    mtdWriteMarkedString os 0x03 mtd.description
    writeI32 1
    mtdWriteLists os mtd
    mtdWriteMarker 0x04
    writeI32 0

/-- The block of the file. -/
def mtdWriteFile (mtd : Mtd) : WriteM Unit :=
  mtdWriteBlock 0 3 0x01 do
    mtdWriteHeader os
    mtdWriteMarker 0x01
    mtdWriteData os mtd
    mtdWriteMarker 0x04
    writeI32 0

/-- `mtd_write_to_writer`. -/
def mtdWriteToWriter (mtd : Mtd) : WriteM Unit := do
  check (¬ (INT32_MAX < mtd.params.length ∨ INT32_MAX < mtd.textures.length)) .outOfRange
  setBigEndian false
  mtdWriteFile os mtd

/-- `sf_mtd_write_to_memory`. -/
def mtdWriteToMemory (mtd : Mtd) : Fallible Heap SfError (List UInt8) :=
  writeToMemory false (mtdWriteToWriter os mtd)

end

end Writing

end SoulsFormats
