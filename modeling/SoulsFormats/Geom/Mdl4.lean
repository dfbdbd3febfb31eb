import SoulsFormats.Core.Tables
import SoulsFormats.Core.Texts

set_option autoImplicit false

/-! # MDL4 models

The model of `mdl4.c`. Materials and their parameters have slots of a fixed size, which the reader leaves by a seek;
indices, vertices and blocks stand behind all headers, at offsets from there. -/

namespace SoulsFormats

open Bytes Fallible

/-! ## Models -/

/-- `sf_mdl4_header`, without the counts. -/
structure Mdl4Header where
  version : UInt32
  dataOffset : Int32
  dataLength : Int32
  vertexBufferCount : Int32
  bboxMin : Vec3
  bboxMax : Vec3
  faceCount : Int32
  totalFaceCount : Int32
deriving DecidableEq

/-- `sf_mdl4_dummy`. -/
structure Mdl4Dummy where
  position : Vec3
  forward : Vec3
  color : UInt32
  referenceId : Int16
  parentBoneIndex : Int16
  attachBoneIndex : Int16
  unk22 : Int16
deriving DecidableEq

/-- `sf_mdl4_param_type_t`. -/
inductive Mdl4ParamType where
  | int | float | float4 | string
deriving DecidableEq, Repr

def Mdl4ParamType.ofUInt8 (t : UInt8) : Option Mdl4ParamType :=
  if t = 0 then some .int else if t = 1 then some .float else if t = 4 then some .float4
  else if t = 5 then some .string else none

/-- The value of a parameter. A float is given by its bits. -/
inductive Mdl4ParamValue where
  | int (v : Int32)
  | float (v : UInt32)
  | float4 (v : CArray UInt32 4)
  | string (v : List UInt8)
deriving DecidableEq

/-- `sf_mdl4_material_param`. -/
structure Mdl4MaterialParam where
  name : List UInt8
  value : Mdl4ParamValue
deriving DecidableEq

/-- `sf_mdl4_material`. -/
structure Mdl4Material where
  name : List UInt8
  shader : List UInt8
  unk3c : UInt8
  unk3d : UInt8
  unk3e : UInt8
  params : List Mdl4MaterialParam
deriving DecidableEq

/-- `sf_mdl4_node`. -/
structure Mdl4Node where
  name : List UInt8
  translation : Vec3
  rotation : Vec3
  scale : Vec3
  bboxMin : Vec3
  bboxMax : Vec3
  parentIndex : Int16
  firstChildIndex : Int16
  nextSiblingIndex : Int16
  previousSiblingIndex : Int16
  unkIndices : CArray Int16 16
deriving DecidableEq

/-- `sf_mdl4_mesh`. Only meshes of format 2 have blocks that are not empty. -/
structure Mdl4Mesh where
  vertexFormat : UInt8
  materialIndex : UInt8
  unk02 : Bool
  unk03 : Bool
  unk08 : Int16
  boneIndices : CArray Int16 28
  indices : List UInt16
  vertexBytes : List UInt8
  vertexCount : Nat
  unkBlocks : CArray (List UInt8) 16
deriving DecidableEq

/-- `version_supported`. -/
def mdl4VersionSupported (v : UInt32) : Bool := v = 0x40001 || v = 0x40002

/-- `vertex_size`. -/
def mdl4VertexSize (version : UInt32) (fmt : UInt8) : Nat :=
  if version = 0x40001 then
    if fmt = 0 then 0x40 else if fmt = 1 then 0x54 else if fmt = 2 then 0x3C else 0
  else if version = 0x40002 then
    if fmt = 0 then 0x28 else if fmt = 1 then 0x34 else 0
  else 0

/-! ## Reading -/

section Reading

open BinaryReader

variable (os : Win32)

/-- `count_valid`. -/
def countValid (count : Int32) (elemSize : Nat) : Bool :=
  0 ≤ count.toInt && (count = 0 || count.toInt.toNat ≤ SIZE_MAX / elemSize)

/-- The sizes of a dummy, a material, a node and a mesh in memory. -/
def mdl4DummySize : Nat := 36

def mdl4MaterialSize : Nat := 40

def mdl4NodeSize : Nat := 112

def mdl4MeshSize : Nat := 360

/-- The header, and how many dummies, materials, bones and meshes there are. -/
structure Mdl4FileHeader extends Mdl4Header where
  dummyCount : Int32
  materialCount : Int32
  boneCount : Int32
  meshCount : Int32

/-- `read_header`. -/
def mdl4ReadHeader : ReadM Mdl4FileHeader := do
  setBigEndian true
  assertAscii (cstr "MDL4")
  let version ← readU32
  check (mdl4VersionSupported version = true) .unsupportedVersion
  let dataOffset ← readI32
  let dataLength ← readI32
  let dummyCount ← readI32
  let materialCount ← readI32
  let boneCount ← readI32
  let meshCount ← readI32
  let vertexBufferCount ← readI32
  let bboxMin ← readVec3
  let bboxMax ← readVec3
  let faceCount ← readI32
  let totalFaceCount ← readI32
  assertPattern 0x3C 0
  check (countValid dummyCount mdl4DummySize = true ∧ countValid materialCount mdl4MaterialSize = true ∧
    countValid boneCount mdl4NodeSize = true ∧ countValid meshCount mdl4MeshSize = true) .outOfRange
  pure ⟨⟨version, dataOffset, dataLength, vertexBufferCount, bboxMin, bboxMax, faceCount, totalFaceCount⟩,
    dummyCount, materialCount, boneCount, meshCount⟩

/-- `read_dummy`. The bytes of the colour come from the highest on. -/
def mdl4ReadDummy : ReadM Mdl4Dummy := do
  let position ← readVec3
  let forward ← readVec3
  let c ← readBytes 4
  let referenceId ← readI16
  let parentBoneIndex ← readI16
  let attachBoneIndex ← readI16
  let unk22 ← readI16
  assertPattern 0x0C 0
  pure ⟨position, forward, UInt32.ofNat (wordNat true c), referenceId, parentBoneIndex, attachBoneIndex, unk22⟩

def mdl4ReadParamValue : Mdl4ParamType → ReadM Mdl4ParamValue
  | .int => do
    let v ← readI32
    pure (.int v)
  | .float => do
    let v ← readF32
    pure (.float v)
  | .float4 => do
    let vs ← readF32s 4
    pure (.float4 (CArray.ofList 4 0 vs))
  | .string => do
    let v ← readShiftJis os
    pure (.string v)

def mdl4ReadParamType : ReadM Mdl4ParamType := do
  let t ← readU8
  match Mdl4ParamType.ofUInt8 t with
  | some type => pure type
  | none => fail .unsupportedVersion

/-- `read_param`. -/
def mdl4ReadParam : ReadM Mdl4MaterialParam := do
  let start ← peek position
  let type ← mdl4ReadParamType
  let name ← readFixStr os 0x1F
  let value ← mdl4ReadParamValue os type
  onStream (IStream.seek (start + 0x40))
  pure ⟨name, value⟩

/-- `read_material`. -/
def mdl4ReadMaterial : ReadM Mdl4Material := do
  let name ← readFixStr os 0x1F
  let shader ← readFixStr os 0x1D
  let unk3c ← readU8
  let unk3d ← readU8
  let unk3e ← readU8
  let paramCount ← readU8
  let paramsOffset ← peek position
  given (0 < paramCount) () do
    let _ ← onHeap Heap.alloc
    pure ()
  let params ← readEach (mdl4ReadParam os) paramCount.toNat
  onStream (IStream.seek (paramsOffset + 0x800))
  pure ⟨name, shader, unk3c, unk3d, unk3e, params⟩

def readInt16s (n : Nat) : ReadM (CArray Int16 n) := do
  let vs ← readI16s n
  pure (CArray.ofList n 0 vs)

/-- `read_node`. -/
def mdl4ReadNode : ReadM Mdl4Node := do
  let name ← readFixStr os 0x20
  let translation ← readVec3
  let rotation ← readVec3
  let scale ← readVec3
  let bboxMin ← readVec3
  let bboxMax ← readVec3
  let parentIndex ← readI16
  let firstChildIndex ← readI16
  let nextSiblingIndex ← readI16
  let previousSiblingIndex ← readI16
  let _ ← assertI32 [0]
  let _ ← assertI32 [0]
  let _ ← assertI32 [0]
  let unkIndices ← readInt16s 16
  pure ⟨name, translation, rotation, scale, bboxMin, bboxMax, parentIndex, firstChildIndex, nextSiblingIndex,
    previousSiblingIndex, unkIndices⟩

/-- What an offset into the data means, in `int32_t`. -/
def mdl4DataAt (dataOffset off : Int32) : ReadM Int := do
  check (-2 ^ 31 ≤ dataOffset.toInt + off.toInt ∧ dataOffset.toInt + off.toInt ≤ INT32_MAX) .undefinedBehaviour
  pure (dataOffset.toInt + off.toInt)

/-- The bytes at an offset, if there are any. -/
def mdl4ReadData (dataOffset len off : Int32) : ReadM (List UInt8) :=
  given (0 < len.toInt) [] do
    let _ ← onHeap Heap.alloc
    let p ← mdl4DataAt dataOffset off
    getBytes p len.toInt.toNat

/-- One of the sixteen blocks of a mesh of format 2. -/
def mdl4ReadBlock (dataOffset : Int32) : ReadM (List UInt8) := do
  let len ← readI32
  let off ← readI32
  check (¬ (len.toInt < 0 ∨ off.toInt < 0)) .outOfRange
  mdl4ReadData dataOffset len off

def mdl4ReadIndices (dataOffset : Int32) (indexCount : UInt16) (indexOff : Int32) : ReadM (List UInt16) :=
  given (0 < indexCount) [] do
    let _ ← onHeap Heap.alloc
    let p ← mdl4DataAt dataOffset indexOff
    getU16s p indexCount.toNat

/-- `read_mesh`. The length that is stated for the indices is only looked at for its sign. -/
def mdl4ReadMesh (h : Mdl4Header) : ReadM Mdl4Mesh := do
  let vertexFormat ← readU8
  check (vertexFormat = 0 ∨ vertexFormat = 1 ∨ vertexFormat = 2) .unsupportedVersion
  let materialIndex ← readU8
  let unk02 ← readBool
  let unk03 ← readBool
  let indexCount ← readU16
  let unk08 ← readI16
  let boneIndices ← readInt16s 28
  let indexLen ← readI32
  let indexOff ← readI32
  let bufferLen ← readI32
  let bufferOff ← readI32
  check (¬ (indexLen.toInt < 0 ∨ bufferLen.toInt < 0)) .outOfRange
  let unkBlocks ← given (vertexFormat = 2) (List.replicate 16 []) (readEach (mdl4ReadBlock h.dataOffset) 16)
  let indices ← mdl4ReadIndices h.dataOffset indexCount indexOff
  check (mdl4VertexSize h.version vertexFormat ≠ 0) .unsupportedVersion
  let vertexBytes ← mdl4ReadData h.dataOffset bufferLen bufferOff
  pure ⟨vertexFormat, materialIndex, unk02, unk03, unk08, boneIndices, indices, vertexBytes,
    bufferLen.toInt.toNat / mdl4VertexSize h.version vertexFormat, CArray.ofList 16 [] unkBlocks⟩

end Reading

end SoulsFormats
