import SoulsFormats.Core.Tables
import SoulsFormats.Core.Texts

set_option autoImplicit false

/-! # SMD4 shadow meshes

The model of `smd4.c`. The headers of all meshes stand before their indices and vertices, which are found by their
offsets from the start of the data. A name is a Shift-JIS field of 32 bytes in the file and an UTF-8 text of at most
32 bytes in memory. -/

namespace SoulsFormats

open Bytes Fallible

def SF_SMD4_VERSION_0x40001 : Int32 := 0x40001

/-- The text in a `char name[33]`. -/
structure Smd4Name where
  text : List UInt8
  noNul : ∀ b ∈ text, b ≠ 0
  short : text.length ≤ 32
deriving DecidableEq, Repr

/-- `smd4_copy_name_from_heap`, and what the `add` functions make of a name by ending it after 32 bytes. -/
def Smd4Name.ofChars (src : List UInt8) : Smd4Name where
  text := (cText src).take 32
  noNul b hb := by simpa using List.mem_takeWhile_imp (List.mem_of_mem_take hb)
  short := List.length_take_le 32 _

/-- `sf_smd4_unk10_t`. -/
structure Smd4Unk10 where
  unk00 : UInt8
  unk01 : UInt8
  unk02 : UInt8
  unk03 : UInt8
  name : Smd4Name
deriving DecidableEq, Repr

/-- `sf_smd4_node_t`. -/
structure Smd4Node where
  name : Smd4Name
  translation : Vec3
  rotation : Vec3
  scale : Vec3
  bbMin : Vec3
  bbMax : Vec3
  parentIndex : Int16
  firstChildIndex : Int16
  nextSiblingIndex : Int16
  prevSiblingIndex : Int16
  unk64 : Int32
  unk68 : Int32
  unk6c : Int32
  unk70 : CArray Int32 8
deriving DecidableEq

/-- `sf_smd4_vertex_t`; floats are given by their bits. -/
structure Smd4Vertex where
  position : Vec3
  uvX : UInt32
  uvY : UInt32
  boneIndices : CArray Int16 4
  boneWeights : CArray UInt32 4
deriving DecidableEq

/-- `sf_smd4_mesh_t`; the counts are the lengths of the lists. -/
structure Smd4Mesh where
  vertexFormat : UInt8
  unk01 : UInt8
  unk02 : Bool
  unk03 : Bool
  unk06 : Int16
  boneIndices : CArray Int16 28
  indices : List UInt16
  vertices : List Smd4Vertex
deriving DecidableEq

/-- `struct sf_smd4`. -/
structure Smd4 where
  version : Int32
  bbMin : Vec3
  bbMax : Vec3
  unk10s : List Smd4Unk10
  unk10Cap : Nat
  nodes : List Smd4Node
  nodeCap : Nat
  meshes : List Smd4Mesh
  meshCap : Nat
deriving DecidableEq

def smd4VertexSize (format : UInt8) : Nat := if format = 0 then 16 else if format = 1 then 24 else if format = 2 then 36 else 0

def smd4FaceCount (m : Smd4Mesh) : Int32 := if m.indices.length < 3 then 0 else Int32.ofNat (m.indices.length / 3)

/-! ## Growing -/

/-- The capacity that leaves room for one more element. -/
def smd4Grow (count cap : Nat) : Fallible Heap SfError Nat :=
  if count < cap then pure cap
  else do
    let _ ← Heap.alloc
    pure (if cap = 0 then 4 else cap * 2)

def smd4GrowUnk10s (s : Smd4) : Fallible Heap SfError Smd4 := do
  let cap ← smd4Grow s.unk10s.length s.unk10Cap
  pure { s with unk10Cap := cap }

def smd4GrowNodes (s : Smd4) : Fallible Heap SfError Smd4 := do
  let cap ← smd4Grow s.nodes.length s.nodeCap
  pure { s with nodeCap := cap }

def smd4GrowMeshes (s : Smd4) : Fallible Heap SfError Smd4 := do
  let cap ← smd4Grow s.meshes.length s.meshCap
  pure { s with meshCap := cap }

/-- `sf_smd4_create`. -/
def smd4Create : Fallible Heap SfError Smd4 := do
  let _ ← Heap.alloc
  pure ⟨SF_SMD4_VERSION_0x40001, ⟨0, 0, 0⟩, ⟨0, 0, 0⟩, [], 0, [], 0, [], 0⟩

/-- `sf_smd4_add_unk10`. -/
def smd4AddUnk10 (s : Smd4) (unk10 : Smd4Unk10) : Fallible Heap SfError Smd4 := do
  let s ← smd4GrowUnk10s s
  pure { s with unk10s := s.unk10s ++ [unk10] }

/-- `sf_smd4_add_node`. -/
def smd4AddNode (s : Smd4) (node : Smd4Node) : Fallible Heap SfError Smd4 := do
  let s ← smd4GrowNodes s
  pure { s with nodes := s.nodes ++ [node] }

/-- `sf_smd4_add_mesh`, which copies the indices and the vertices. -/
def smd4AddMesh (s : Smd4) (mesh : Smd4Mesh) : Fallible Heap SfError Smd4 := do
  check (smd4VertexSize mesh.vertexFormat ≠ 0) .invalidArg
  let s ← smd4GrowMeshes s
  let _ ← given (0 < mesh.indices.length) [] Heap.alloc
  let _ ← given (0 < mesh.vertices.length) [] Heap.alloc
  pure { s with meshes := s.meshes ++ [mesh] }

/-! ## Reading -/

section Reading

open BinaryReader

variable (os : Win32)

def smd4ReadUnk10 : ReadM Smd4Unk10 := do
  let unk00 ← readU8
  let unk01 ← readU8
  let unk02 ← readU8
  let unk03 ← readU8
  let name ← readFixStr os 32
  pure ⟨unk00, unk01, unk02, unk03, .ofChars name⟩

def smd4ReadNode : ReadM Smd4Node := do
  let name ← readFixStr os 32
  let translation ← readVec3
  let rotation ← readVec3
  let scale ← readVec3
  let bbMin ← readVec3
  let bbMax ← readVec3
  let parentIndex ← readI16
  let firstChildIndex ← readI16
  let nextSiblingIndex ← readI16
  let prevSiblingIndex ← readI16
  let unk64 ← readI32
  let unk68 ← readI32
  let unk6c ← readI32
  let unk70 ← readI32s 8
  pure ⟨.ofChars name, translation, rotation, scale, bbMin, bbMax, parentIndex, firstChildIndex, nextSiblingIndex,
    prevSiblingIndex, unk64, unk68, unk6c, .ofList 8 0 unk70⟩

/-- The indices and weights of a vertex with one bone. -/
def smd4OneBone (bone : Int16) : CArray Int16 4 × CArray UInt32 4 :=
  (⟨[bone, -1, -1, -1], rfl⟩, ⟨[0x3F800000, 0, 0, 0], rfl⟩)

/-- The fields that the format has not are those of a vertex with one bone, or zero. -/
def smd4ReadVertex (format : UInt8) : ReadM Smd4Vertex :=
  if format = 0 then do
    let pos ← readVec3
    let bone ← readI16
    let _ ← assertI16 [0]
    pure ⟨pos, 0, 0, (smd4OneBone bone).1, (smd4OneBone bone).2⟩
  else if format = 1 then do
    let pos ← readVec3
    let uvX ← readF32
    let uvY ← readF32
    let bone ← readI16
    let _ ← assertI16 [0]
    pure ⟨pos, uvX, uvY, (smd4OneBone bone).1, (smd4OneBone bone).2⟩
  else if format = 2 then do
    let pos ← readVec3
    let boneIndices ← readI16s 4
    let boneWeights ← readF32s 4
    pure ⟨pos, 0, 0, .ofList 4 (-1) boneIndices, .ofList 4 0 boneWeights⟩
  else fail .unsupportedVersion

/-- The indices and the vertices of a mesh; a step out follows the loop over the vertices also when it has failed. -/
def smd4ReadData (format : UInt8) (indexCount vertexCount : Nat) (indicesOffset bufferOffset : Int) :
    ReadM (List UInt16 × List Smd4Vertex) := do
  let indices ← given (0 < indexCount) [] do
    let _ ← onHeap Heap.alloc
    getU16s indicesOffset indexCount
  let vertices ← given (0 < vertexCount) [] do
    let _ ← onHeap Heap.alloc
    defineGet bufferOffset (readEach (smd4ReadVertex format) vertexCount)
  pure (indices, vertices)

def smd4ReadMesh (dataOffset version : Int32) (s : Smd4) : ReadM Smd4 := do
  check (version = SF_SMD4_VERSION_0x40001) .unsupportedVersion
  let vertexFormat ← readU8
  let unk01 ← readU8
  let unk02 ← readBool
  let unk03 ← readBool
  let vertexIndexCount ← readU16
  let unk06 ← readI16
  let boneIndices ← readI16s 28
  let vertexIndicesLength ← readI32
  check (vertexIndicesLength.toInt = vertexIndexCount.toNat * 2) .badMagic
  let vertexIndicesOffset ← readI32
  let vertexBufferLength ← readI32
  let vertexBufferOffset ← readI32
  let vsize := smd4VertexSize vertexFormat
  check (vsize ≠ 0) .unsupportedVersion
  check (0 ≤ vertexBufferLength.toInt ∧ vertexBufferLength.toInt.toNat % vsize = 0) .badMagic
  let vertexCount := vertexBufferLength.toInt.toNat / vsize
  let data ← smd4ReadData vertexFormat vertexIndexCount.toNat vertexCount
    (dataOffset.toInt + vertexIndicesOffset.toInt) (dataOffset.toInt + vertexBufferOffset.toInt)
  let s ← onHeap (smd4GrowMeshes s)
  let m : Smd4Mesh := ⟨vertexFormat, unk01, unk02, unk03, unk06, .ofList 28 0 boneIndices, data.1, data.2⟩
  pure { s with meshes := s.meshes ++ [m] }

/-- The three loops of the reader. -/
def smd4ReadUnk10s : Nat → Smd4 → ReadM Smd4
  | 0, s => pure s
  | n + 1, s => do
    let u ← smd4ReadUnk10 os
    let s ← onHeap (smd4GrowUnk10s s)
    smd4ReadUnk10s n { s with unk10s := s.unk10s ++ [u] }

def smd4ReadNodes : Nat → Smd4 → ReadM Smd4
  | 0, s => pure s
  | n + 1, s => do
    let node ← smd4ReadNode os
    let s ← onHeap (smd4GrowNodes s)
    smd4ReadNodes n { s with nodes := s.nodes ++ [node] }

def smd4ReadMeshes (dataOffset version : Int32) : Nat → Smd4 → ReadM Smd4
  | 0, s => pure s
  | n + 1, s => do
    let s ← smd4ReadMesh dataOffset version s
    smd4ReadMeshes dataOffset version n s

/-- What the header says. -/
structure Smd4Head where
  version : Int32
  dataOffset : Int32
  countUnk10 : Int32
  nodeCount : Int32
  meshCount : Int32
  bbMin : Vec3
  bbMax : Vec3

def smd4ReadHead : ReadM Smd4Head := do
  assertAscii (cstr "SMD4")
  let version ← readI32
  check (version = SF_SMD4_VERSION_0x40001) .unsupportedVersion
  let dataOffset ← readI32
  let _ ← readI32
  let countUnk10 ← readI32
  let nodeCount ← readI32
  let meshCount ← readI32
  let _ ← assertI32 [meshCount]
  check (0 ≤ countUnk10.toInt ∧ 0 ≤ nodeCount.toInt ∧ 0 ≤ meshCount.toInt) .badMagic
  let bbMin ← readVec3
  let bbMax ← readVec3
  let _ ← readI32
  let _ ← readI32
  assertPattern 32 0
  pure ⟨version, dataOffset, countUnk10, nodeCount, meshCount, bbMin, bbMax⟩

/-- What `sf_smd4_read_from_memory` does with its reader. -/
def smd4Read : ReadM Smd4 := do
  let head ← smd4ReadHead
  let s ← onHeap smd4Create
  let s : Smd4 := { s with version := head.version, bbMin := head.bbMin, bbMax := head.bbMax }
  let s ← smd4ReadUnk10s os head.countUnk10.toInt.toNat s
  let s ← smd4ReadNodes os head.nodeCount.toInt.toNat s
  smd4ReadMeshes head.dataOffset head.version head.meshCount.toInt.toNat s

/-- `sf_smd4_read_from_memory`. -/
def smd4ReadFromMemory (flexible : Bool) (data : List UInt8) : Fallible Heap SfError Smd4 :=
  onMemory data true flexible (smd4Read os)

end Reading

/-! ## Writing -/

section Writing

open BinaryWriter

variable (os : Win32)

def smd4WriteUnk10 (u : Smd4Unk10) : WriteM Unit := do
  writeU8 u.unk00
  writeU8 u.unk01
  writeU8 u.unk02
  writeU8 u.unk03
  writeFixStr os (some u.name.text) 32 0

def smd4WriteNode (n : Smd4Node) : WriteM Unit := do
  writeFixStr os (some n.name.text) 32 0
  writeVec3 n.translation
  writeVec3 n.rotation
  writeVec3 n.scale
  writeVec3 n.bbMin
  writeVec3 n.bbMax
  writeI16 n.parentIndex
  writeI16 n.firstChildIndex
  writeI16 n.nextSiblingIndex
  writeI16 n.prevSiblingIndex
  writeI32 n.unk64
  writeI32 n.unk68
  writeI32 n.unk6c
  writeI32s n.unk70.1

def smd4WriteVertex (format : UInt8) (v : Smd4Vertex) : WriteM Unit :=
  if format = 0 then do
    writeVec3 v.position
    writeI16 (v.boneIndices.1.getD 0 0)
    writeI16 0
  else if format = 1 then do
    writeVec3 v.position
    writeF32 v.uvX
    writeF32 v.uvY
    writeI16 (v.boneIndices.1.getD 0 0)
    writeI16 0
  else if format = 2 then do
    writeVec3 v.position
    writeI16s v.boneIndices.1
    writeF32s v.boneWeights.1
  else fail .unsupportedVersion

/-- The counts and lengths are cast to their widths. -/
def smd4WriteMeshHeader (index : Nat) (m : Smd4Mesh) : WriteM Unit := do
  writeU8 m.vertexFormat
  writeU8 m.unk01
  writeBool m.unk02
  writeBool m.unk03
  writeU16 (UInt16.ofNat m.indices.length)
  writeI16 m.unk06
  writeI16s m.boneIndices.1
  writeI32 (Int32.ofNat (m.indices.length * 2))
  reserveI32 (label "VertexIndicesOffset_" index)
  writeI32 (Int32.ofNat (m.vertices.length * smd4VertexSize m.vertexFormat))
  reserveI32 (label "VertexBufferOffset_" index)

/-- `face_count += smd4_face_count(..)` in `int32_t`. -/
def smd4FaceSum : List Smd4Mesh → Int → Except SfError Int
  | [], total => .ok total
  | m :: meshes, total =>
    let total := total + (smd4FaceCount m).toInt
    if -2 ^ 31 ≤ total ∧ total < 2 ^ 31 then smd4FaceSum meshes total else .error .undefinedBehaviour

/-- How many faces the meshes have, and three times as much. -/
def smd4FaceCounts (meshes : List Smd4Mesh) : Except SfError (Int32 × Int32) := do
  let faceCount ← smd4FaceSum meshes 0
  if -2 ^ 31 ≤ faceCount * 3 ∧ faceCount * 3 < 2 ^ 31 then .ok (Int32.ofInt faceCount, Int32.ofInt (faceCount * 3))
  else .error .undefinedBehaviour

/-- The offset of the position from the start of the data. -/
def smd4FillOffset (dataStart : Nat) (name : List UInt8) : WriteM Unit := do
  let pos ← peek position
  check (dataStart ≤ pos ∧ pos - dataStart ≤ INT32_MAX) .outOfRange
  fillI32 name (Int32.ofNat (pos - dataStart))

/-- The indices and vertices of a mesh. -/
def smd4WriteData (dataStart : Nat) (index : Nat) (m : Smd4Mesh) : WriteM Unit := do
  smd4FillOffset dataStart (label "VertexIndicesOffset_" index)
  given (0 < m.indices.length) () (writeU16s m.indices)
  pad 0x10
  smd4FillOffset dataStart (label "VertexBufferOffset_" index)
  writeEach (smd4WriteVertex m.vertexFormat) m.vertices

/-- What `sf_smd4_write_to_memory` does with its writer. -/
def smd4Write (s : Smd4) : WriteM Unit := do
  writeBytes (cstr "SMD4")
  writeI32 s.version
  reserveI32 (cstr "DataOffset")
  reserveI32 (cstr "DataSize")
  writeI32 (Int32.ofNat s.unk10s.length)
  writeI32 (Int32.ofNat s.nodes.length)
  writeI32 (Int32.ofNat s.meshes.length)
  writeI32 (Int32.ofNat s.meshes.length)
  writeVec3 s.bbMin
  writeVec3 s.bbMax
  let counts ← lift (smd4FaceCounts s.meshes)
  writeI32 counts.1
  writeI32 counts.2
  writePattern 32 0
  writeEach (smd4WriteUnk10 os) s.unk10s
  writeEach (smd4WriteNode os) s.nodes
  forIndexed smd4WriteMeshHeader 0 s.meshes
  pad 0x800
  let dataStart ← peek position
  check (dataStart ≤ INT32_MAX) .outOfRange
  fillI32 (cstr "DataOffset") (Int32.ofNat dataStart)
  forIndexed (smd4WriteData dataStart) 0 s.meshes
  pad 0x800
  let dataEnd ← peek position
  check (dataEnd - dataStart ≤ INT32_MAX) .outOfRange
  fillI32 (cstr "DataSize") (Int32.ofNat (dataEnd - dataStart))

/-- `sf_smd4_write_to_memory`. -/
def smd4WriteToMemory (s : Smd4) : Fallible Heap SfError (List UInt8) := do
  check (s.version = SF_SMD4_VERSION_0x40001) .unsupportedVersion
  writeToMemory true (smd4Write os s)

end Writing

end SoulsFormats
