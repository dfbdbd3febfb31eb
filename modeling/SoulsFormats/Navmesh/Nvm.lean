import SoulsFormats.Core.Tables

set_option autoImplicit false

/-! # NVM navmeshes

The model of `nvm.c`. The boxes are a tree with up to four children. They are written by two recursions: the
first writes the triangle indices of every box and queues their offsets, the second writes the records of the
boxes, the children before their parent, and takes the offsets from the queue. -/

namespace SoulsFormats

open Bytes Fallible

/-- `sf_nvm_triangle_t`. -/
structure NvmTriangle where
  vertexIndex1 : Int32
  vertexIndex2 : Int32
  vertexIndex3 : Int32
  edgeIndex1 : Int32
  edgeIndex2 : Int32
  edgeIndex3 : Int32
  obstacleCount : Int32
  flags : UInt32
deriving DecidableEq, Repr

/-- A pointer to a `sf_nvm_box_t`. -/
inductive NvmBox where
  | null
  | box (minCorner maxCorner : Vec3) (triangleIndices : List Int32) (child0 child1 child2 child3 : NvmBox)
deriving DecidableEq, Repr

/-- `sf_nvm_entity_t`. -/
structure NvmEntity where
  entityId : Int32
  triangleIndices : List Int32
deriving DecidableEq, Repr

/-- `sf_nvm_t`. -/
structure Nvm where
  bigEndian : Bool
  vertices : List Vec3
  triangles : List NvmTriangle
  rootBox : NvmBox
  entities : List NvmEntity
deriving DecidableEq, Repr

/-! ## Reading -/

section Reading

open BinaryReader

/-- `read_triangle`. -/
def nvmReadTriangle : ReadM NvmTriangle := do
  let vertexIndex1 ← readI32
  let vertexIndex2 ← readI32
  let vertexIndex3 ← readI32
  let edgeIndex1 ← readI32
  let edgeIndex2 ← readI32
  let edgeIndex3 ← readI32
  let packed ← readI32
  check (packed &&& 3 = 0) .badMagic
  pure ⟨vertexIndex1, vertexIndex2, vertexIndex3, edgeIndex1, edgeIndex2, edgeIndex3, (packed >>> 2) &&& 0x3FFF,
    packed.toUInt32 >>> 16⟩

/-- `read_box_at`. -/
def nvmReadBoxAt (readBox : ReadM NvmBox) (offset : Int32) : ReadM NvmBox :=
  if offset = 0 then pure .null else steppedIn offset.toInt readBox

/-- `read_box`. A box that is its own descendant would be read without end. -/
def nvmReadBox : Nat → ReadM NvmBox
  | 0 => fail .nonTermination
  | fuel + 1 => do
    let _ ← onHeap Heap.alloc
    let minCorner ← readVec3
    let triCount ← readI32
    let maxCorner ← readVec3
    let triOffset ← readI32
    let offset0 ← readI32
    let offset1 ← readI32
    let offset2 ← readI32
    let offset3 ← readI32
    let _ ← assertI32 [0]
    let _ ← assertI32 [0]
    let _ ← assertI32 [0]
    let _ ← assertI32 [0]
    check (0 ≤ triCount.toInt) .outOfRange
    let triangleIndices ← readI32sAt triCount triOffset
    let child0 ← nvmReadBoxAt (nvmReadBox fuel) offset0
    let child1 ← nvmReadBoxAt (nvmReadBox fuel) offset1
    let child2 ← nvmReadBoxAt (nvmReadBox fuel) offset2
    let child3 ← nvmReadBoxAt (nvmReadBox fuel) offset3
    pure (.box minCorner maxCorner triangleIndices child0 child1 child2 child3)

/-- `read_entity`. -/
def nvmReadEntity : ReadM NvmEntity := do
  let entityId ← readI32
  let indexOffset ← readI32
  let indexCount ← readI32
  let _ ← assertI32 [0]
  check (0 ≤ indexCount.toInt) .outOfRange
  let triangleIndices ← readI32sAt indexCount indexOffset
  pure ⟨entityId, triangleIndices⟩

/-- What `sf_nvm_read_from_memory` does with its reader. -/
def nvmRead (fuel : Nat) : ReadM Nvm := do
  let _ ← onHeap Heap.alloc
  let magic ← assertI32 [1, 0x1000000]
  setBigEndian (magic ≠ 1)
  let vertexCount ← readI32
  let _ ← assertI32 [0x80]
  check (0 ≤ vertexCount.toInt) .outOfRange
  let triangleCount ← readI32
  -- the sum is made in an `int`
  check (0x80 + vertexCount.toInt * 0xC ≤ INT32_MAX) .undefinedBehaviour
  let _ ← assertI32 [0x80 + vertexCount * 0xC]
  check (0 ≤ triangleCount.toInt) .outOfRange
  let rootBoxOffset ← readI32
  let _ ← assertI32 [0]
  let entityCount ← readI32
  let entityOffset ← readI32
  check (0 ≤ entityCount.toInt ∧ 0 ≤ rootBoxOffset.toInt ∧ 0 ≤ entityOffset.toInt) .outOfRange
  let _ ← readEach (assertI32 [0]) 23
  let vertices ← readAppended 16 (fun room => do
    let v ← readVec3
    let cap ← room
    pure (v, cap)) vertexCount.toInt.toNat 0 0
  let triangles ← readAppended 16 (fun room => do
    let cap ← room
    let t ← nvmReadTriangle
    pure (t, cap)) triangleCount.toInt.toNat 0 0
  let rootBox ← steppedIn rootBoxOffset.toInt (nvmReadBox fuel)
  let entities ← steppedIn entityOffset.toInt (readAppended 4 (fun room => do
    let cap ← room
    let e ← nvmReadEntity
    pure (e, cap)) entityCount.toInt.toNat 0 0)
  pure ⟨magic ≠ 1, vertices, triangles, rootBox, entities⟩

/-- `sf_nvm_read_from_memory`. No more boxes than there are offsets can stand one in the other, unless one
    stands in itself. -/
def nvmReadFromMemory (flexible : Bool) (data : List UInt8) : Fallible Heap SfError Nvm :=
  onMemory data false flexible (nvmRead (data.length + 2))

end Reading

/-! ## Writing -/

/-- `nvm_offset_queue_t`, of which the tail is the number of the items. -/
structure NvmOffsetQueue where
  items : List Int32
  head : Nat
  capacity : Nat
deriving DecidableEq, Repr

section Writing

open BinaryWriter

/-- `queue_push`. -/
def nvmQueuePush (q : NvmOffsetQueue) (v : Int32) : WriteM NvmOffsetQueue := do
  let cap ← given (q.items.length = q.capacity) q.capacity do
    let _ ← onHeap Heap.alloc
    pure (if q.capacity = 0 then 16 else q.capacity * 2)
  pure ⟨q.items ++ [v], q.head, cap⟩

/-- `queue_pop`, with the queue behind it. -/
def nvmQueuePop (q : NvmOffsetQueue) : WriteM (Int32 × NvmOffsetQueue) :=
  match q.items[q.head]? with
  | none => fail .undefinedBehaviour
  | some v => pure (v, { q with head := q.head + 1 })

/-- `write_box_triangle_indices`. -/
def nvmWriteBoxTriangleIndices : NvmBox → NvmOffsetQueue → WriteM NvmOffsetQueue
  | .null, q => pure q
  | .box _ _ triangleIndices child0 child1 child2 child3, q => do
    let q ← nvmWriteBoxTriangleIndices child0 q
    let q ← nvmWriteBoxTriangleIndices child1 q
    let q ← nvmWriteBoxTriangleIndices child2 q
    let q ← nvmWriteBoxTriangleIndices child3 q
    if triangleIndices.length = 0 then nvmQueuePush q 0
    else do
      let pos ← peek position
      check (pos ≤ INT32_MAX) .outOfRange
      let q ← nvmQueuePush q (Int32.ofNat pos)
      writeI32s triangleIndices
      pure q

/-- The record of a box, whose offsets are known. -/
def nvmWriteBoxRecord (minCorner maxCorner : Vec3) (triCount : Int32) (q : NvmOffsetQueue)
    (offset0 offset1 offset2 offset3 : Int32) : WriteM NvmOffsetQueue := do
  writeVec3 minCorner
  writeI32 triCount
  writeVec3 maxCorner
  let (triOffset, q) ← nvmQueuePop q
  writeI32 triOffset
  writeI32 offset0
  writeI32 offset1
  writeI32 offset2
  writeI32 offset3
  writeI32 0
  writeI32 0
  writeI32 0
  writeI32 0
  pure q

/-- `write_box`, with the queue behind it and the offset of the box. No box is called with a null pointer,
    for which the offset stays zero. -/
def nvmWriteBox : NvmBox → NvmOffsetQueue → WriteM (NvmOffsetQueue × Int32)
  | .null, q => pure (q, 0)
  | .box minCorner maxCorner triangleIndices child0 child1 child2 child3, q => do
    let (q, offset0) ← nvmWriteBox child0 q
    let (q, offset1) ← nvmWriteBox child1 q
    let (q, offset2) ← nvmWriteBox child2 q
    let (q, offset3) ← nvmWriteBox child3 q
    let thisOff ← peek position
    check (thisOff ≤ INT32_MAX) .outOfRange
    check (triangleIndices.length ≤ INT32_MAX) .outOfRange
    let q ← nvmWriteBoxRecord minCorner maxCorner (Int32.ofNat triangleIndices.length) q offset0 offset1 offset2 offset3
    pure (q, Int32.ofNat thisOff)

/-- `((t->obstacle_count & 0x3FFF) << 2) | ((int32_t)((uint32_t)t->flags << 16))`. -/
def NvmTriangle.packed (t : NvmTriangle) : Int32 := ((t.obstacleCount &&& 0x3FFF) <<< 2) ||| (t.flags <<< 16).toInt32

def nvmWriteTriangle (t : NvmTriangle) : WriteM Unit := do
  writeI32 t.vertexIndex1
  writeI32 t.vertexIndex2
  writeI32 t.vertexIndex3
  writeI32 t.edgeIndex1
  writeI32 t.edgeIndex2
  writeI32 t.edgeIndex3
  writeI32 t.packed

def nvmWriteEntity (e : NvmEntity) (offset : Int32) : WriteM Unit := do
  writeI32 e.entityId
  writeI32 offset
  writeI32 (Int32.ofNat e.triangleIndices.length)
  writeI32 0

/-- What `sf_nvm_write_to_memory` does with its writer. -/
def nvmWrite (n : Nvm) : WriteM Unit := do
  writeI32 1
  writeI32 (Int32.ofNat n.vertices.length)
  reserveI32 (cstr "VertexOffset")
  writeI32 (Int32.ofNat n.triangles.length)
  reserveI32 (cstr "TriangleOffset")
  reserveI32 (cstr "RootBoxOffset")
  writeI32 0
  writeI32 (Int32.ofNat n.entities.length)
  reserveI32 (cstr "EntityOffset")
  writeEach writeI32 (List.replicate 23 0)
  let vertexPos ← peek position
  check (vertexPos ≤ INT32_MAX) .outOfRange
  fillI32 (cstr "VertexOffset") (Int32.ofNat vertexPos)
  writeEach writeVec3 n.vertices
  let triPos ← peek position
  check (triPos ≤ INT32_MAX) .outOfRange
  fillI32 (cstr "TriangleOffset") (Int32.ofNat triPos)
  writeEach nvmWriteTriangle n.triangles
  let queue ← nvmWriteBoxTriangleIndices n.rootBox ⟨[], 0, 0⟩
  let (_, rootBoxOffset) ← nvmWriteBox n.rootBox queue
  fillI32 (cstr "RootBoxOffset") rootBoxOffset
  let entityOffsets ← given (0 < n.entities.length) [] do
    let _ ← onHeap Heap.alloc
    noteEach (fun e => noteI32s e.triangleIndices) n.entities
  let entityPos ← peek position
  check (entityPos ≤ INT32_MAX) .outOfRange
  fillI32 (cstr "EntityOffset") (Int32.ofNat entityPos)
  writeEach (fun e => nvmWriteEntity e.1 e.2) (n.entities.zip entityOffsets)

/-- `sf_nvm_write_to_memory`. -/
def nvmWriteToMemory (n : Nvm) : Fallible Heap SfError (List UInt8) :=
  if n.rootBox = .null then fail .invalidArg
  else if INT32_MAX < n.vertices.length ∨ INT32_MAX < n.triangles.length ∨ INT32_MAX < n.entities.length then
    fail .outOfRange
  else writeToMemory n.bigEndian (nvmWrite n)

end Writing

end SoulsFormats
