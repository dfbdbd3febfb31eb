import SoulsFormats.Core.Tables

set_option autoImplicit false

/-! # MCP navigation volumes

The model of `mcp.c`. The indices of all rooms stand between the header and the table of the rooms, whose records
point to them. -/

namespace SoulsFormats

open Bytes Fallible

/-- `sf_mcp_room_t`. -/
structure McpRoom where
  mapId : UInt32
  localIndex : Int32
  bboxMin : Vec3
  bboxMax : Vec3
  connectedIndices : List Int32
deriving DecidableEq, Repr

/-- `sf_mcp_t`. -/
structure Mcp where
  bigEndian : Bool
  unk04 : Int32
  rooms : List McpRoom
deriving DecidableEq, Repr

/-! ## Building -/

/-- `sf_mcp_create_empty`. -/
def mcpCreateEmpty : Mcp := ⟨false, 0, []⟩

/-- `sf_mcp_append_room`. -/
def mcpAppendRoom (m : Mcp) : Mcp := { m with rooms := m.rooms ++ [⟨0, 0, ⟨0, 0, 0⟩, ⟨0, 0, 0⟩, []⟩] }

/-- `sf_mcp_room_append_connected_index`. -/
def mcpRoomAppendConnectedIndex (r : McpRoom) (idx : Int32) : McpRoom :=
  { r with connectedIndices := r.connectedIndices ++ [idx] }

/-! ## Reading -/

section Reading

open BinaryReader

/-- The indices of a room. A failure inside leaves the reader where it is. -/
def mcpReadIndices (count : Nat) (offset : Int32) : ReadM (List Int32) := do
  let _ ← onHeap Heap.alloc
  stepIn offset.toInt
  let arr ← readI32s count
  stepOut
  pure arr

/-- `mcp_read_room`. -/
def mcpReadRoom : ReadM McpRoom := do
  let mapId ← readU32
  let localIndex ← readI32
  let indexCount ← readI32
  let indicesOffset ← readI32
  let bboxMin ← readVec3
  let bboxMax ← readVec3
  check (0 ≤ indexCount.toInt ∧ 0 ≤ indicesOffset.toInt) .outOfRange
  let arr ← given (0 < indexCount.toInt) [] (mcpReadIndices indexCount.toInt.toNat indicesOffset)
  pure ⟨mapId, localIndex, bboxMin, bboxMax, arr⟩

/-- `mcp_reserve_rooms` of an empty list. -/
def mcpReserveRooms (needed : Nat) : ReadM (List UInt8) := given (0 < needed) [] (onHeap Heap.alloc)

/-- What `sf_mcp_read_from_memory` does with its reader. -/
def mcpRead : ReadM Mcp := do
  let _ ← onHeap Heap.alloc
  let magic ← assertI32 [2, 0x2000000]
  setBigEndian (magic = 2)
  let unk04 ← readI32
  let roomCount ← readI32
  let roomsOffset ← readI32
  check (0 ≤ roomCount.toInt ∧ 0 ≤ roomsOffset.toInt) .outOfRange
  let _ ← mcpReserveRooms roomCount.toInt.toNat
  let rooms ← steppedIn roomsOffset.toInt (readEach mcpReadRoom roomCount.toInt.toNat)
  pure ⟨magic = 2, unk04, rooms⟩

/-- `sf_mcp_read_from_memory`. -/
def mcpReadFromMemory (flexible : Bool) (data : List UInt8) : Fallible Heap SfError Mcp :=
  onMemory data true flexible mcpRead

end Reading

/-! ## Writing -/

section Writing

open BinaryWriter

/-- The indices of a room and where they start. -/
def mcpWriteIndices (r : McpRoom) : WriteM Int32 := do
  let pos ← peek position
  check (pos ≤ INT32_MAX) .outOfRange
  check (r.connectedIndices.length ≤ INT32_MAX) .outOfRange
  writeI32s r.connectedIndices
  pure (Int32.ofNat pos)

def mcpWriteRoom (r : McpRoom) (indicesOffset : Int32) : WriteM Unit := do
  check (r.connectedIndices.length ≤ INT32_MAX) .outOfRange
  writeU32 r.mapId
  writeI32 r.localIndex
  writeI32 (Int32.ofNat r.connectedIndices.length)
  writeI32 indicesOffset
  writeVec3 r.bboxMin
  writeVec3 r.bboxMax

/-- What `sf_mcp_write_to_memory` does with its writer. -/
def mcpWrite (m : Mcp) : WriteM Unit := do
  let _ ← given (0 < m.rooms.length) [] (onHeap Heap.alloc)
  writeI32 2
  writeI32 m.unk04
  writeI32 (Int32.ofNat m.rooms.length)
  reserveI32 (cstr "RoomsOffset")
  let offsets ← noteEach mcpWriteIndices m.rooms
  let roomsPos ← peek position
  check (roomsPos ≤ INT32_MAX) .outOfRange
  fillI32 (cstr "RoomsOffset") (Int32.ofNat roomsPos)
  writeEach (fun r => mcpWriteRoom r.1 r.2) (m.rooms.zip offsets)

/-- `sf_mcp_write_to_memory`. -/
def mcpWriteToMemory (m : Mcp) : Fallible Heap SfError (List UInt8) :=
  if INT32_MAX < m.rooms.length then fail .outOfRange
  else writeToMemory m.bigEndian (mcpWrite m)

end Writing

end SoulsFormats
