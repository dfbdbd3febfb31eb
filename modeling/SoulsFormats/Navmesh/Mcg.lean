import SoulsFormats.Core.Tables

set_option autoImplicit false

/-! # MCG navigation graphs

The model of `mcg.c`. The lists of indices stand before the tables of the nodes and the edges, whose records
point to them. A node has two lists but only one count of their elements in its record. -/

namespace SoulsFormats

open Bytes Fallible

/-- `sf_mcg_node_t`. -/
structure McgNode where
  position : Vec3
  connectedNodeIndices : List Int32
  connectedEdgeIndices : List Int32
  unk18 : Int32
  unk1c : Int32
deriving DecidableEq, Repr

/-- `sf_mcg_edge_t`; `unk20` is a float, by its bits. -/
structure McgEdge where
  nodeIndexA : Int32
  nodeIndexB : Int32
  mcpRoomIndex : Int32
  mapId : UInt32
  unk20 : UInt32
  unkIndicesA : List Int32
  unkIndicesB : List Int32
deriving DecidableEq, Repr

/-- `sf_mcg_t`. -/
structure Mcg where
  bigEndian : Bool
  unk04 : Int32
  unk18 : Int32
  unk1c : Int32
  nodes : List McgNode
  edges : List McgEdge
deriving DecidableEq, Repr

/-! ## Building

What the calls of the interface make of a graph where the allocator grants them what they ask for. Any graph
can be built with them and the field setters. -/

/-- `sf_mcg_create_empty`. -/
def mcgCreateEmpty : Mcg := ⟨false, 0, 0, 0, [], []⟩

/-- `sf_mcg_append_node`. -/
def mcgAppendNode (m : Mcg) : Mcg := { m with nodes := m.nodes ++ [⟨⟨0, 0, 0⟩, [], [], -1, 0⟩] }

/-- `sf_mcg_append_edge`. -/
def mcgAppendEdge (m : Mcg) : Mcg := { m with edges := m.edges ++ [⟨0, 0, 0, 0, 0, [], []⟩] }

/-- `sf_mcg_node_append_connected_node_index`. -/
def mcgNodeAppendConnectedNodeIndex (n : McgNode) (v : Int32) : McgNode :=
  { n with connectedNodeIndices := n.connectedNodeIndices ++ [v] }

/-- `sf_mcg_node_append_connected_edge_index`. -/
def mcgNodeAppendConnectedEdgeIndex (n : McgNode) (v : Int32) : McgNode :=
  { n with connectedEdgeIndices := n.connectedEdgeIndices ++ [v] }

/-- `sf_mcg_edge_append_unk_indices_a`. -/
def mcgEdgeAppendUnkIndicesA (e : McgEdge) (v : Int32) : McgEdge := { e with unkIndicesA := e.unkIndicesA ++ [v] }

/-- `sf_mcg_edge_append_unk_indices_b`. -/
def mcgEdgeAppendUnkIndicesB (e : McgEdge) (v : Int32) : McgEdge := { e with unkIndicesB := e.unkIndicesB ++ [v] }

/-! ## Reading -/

section Reading

open BinaryReader

/-- Both lists of a node, of one length. -/
def mcgReadConnections (count : Nat) (nodeIndices edgeIndices : Int32) : ReadM (List Int32 × List Int32) := do
  onHeap Heap.allocBoth
  let narr ← getI32s nodeIndices.toInt count
  let earr ← getI32s edgeIndices.toInt count
  pure (narr, earr)

/-- `read_node`. -/
def mcgReadNode : ReadM McgNode := do
  let connectionCount ← readI32
  let position ← readVec3
  let nodeIndicesOffset ← readI32
  let edgeIndicesOffset ← readI32
  let unk18 ← readI32
  let unk1c ← readI32
  check (0 ≤ connectionCount.toInt) .outOfRange
  let lists ← given (0 < connectionCount.toInt) ([], [])
    (mcgReadConnections connectionCount.toInt.toNat nodeIndicesOffset edgeIndicesOffset)
  pure ⟨position, lists.1, lists.2, unk18, unk1c⟩

/-- `read_edge`. -/
def mcgReadEdge : ReadM McgEdge := do
  let nodeIndexA ← readI32
  let countA ← readI32
  let offsetA ← readI32
  let nodeIndexB ← readI32
  let countB ← readI32
  let offsetB ← readI32
  let mcpRoomIndex ← readI32
  let mapId ← readU32
  let unk20 ← readF32
  check (0 ≤ countA.toInt ∧ 0 ≤ countB.toInt) .outOfRange
  let a ← readI32sAt countA offsetA
  let b ← readI32sAt countB offsetB
  pure ⟨nodeIndexA, nodeIndexB, mcpRoomIndex, mapId, unk20, a, b⟩

/-- `reserve_nodes` and `reserve_edges` of an empty graph. -/
def mcgReserve (needed : Nat) : ReadM Unit :=
  given (0 < needed) () do
    let _ ← onHeap Heap.alloc
    pure ()

/-- What `sf_mcg_read_from_memory` does with its reader. -/
def mcgRead : ReadM Mcg := do
  let _ ← onHeap Heap.alloc
  let magic ← assertI32 [1, 0x1000000]
  setBigEndian (magic = 1)
  let unk04 ← readI32
  let nodeCount ← readI32
  let nodesOffset ← readI32
  let edgeCount ← readI32
  let edgesOffset ← readI32
  let unk18 ← readI32
  let unk1c ← readI32
  check (0 ≤ nodeCount.toInt ∧ 0 ≤ edgeCount.toInt ∧ 0 ≤ nodesOffset.toInt ∧ 0 ≤ edgesOffset.toInt) .outOfRange
  mcgReserve nodeCount.toInt.toNat
  mcgReserve edgeCount.toInt.toNat
  let nodes ← steppedIn nodesOffset.toInt (readEach mcgReadNode nodeCount.toInt.toNat)
  let edges ← steppedIn edgesOffset.toInt (readEach mcgReadEdge edgeCount.toInt.toNat)
  pure ⟨magic = 1, unk04, unk18, unk1c, nodes, edges⟩

/-- `sf_mcg_read_from_memory`. -/
def mcgReadFromMemory (flexible : Bool) (data : List UInt8) : Fallible Heap SfError Mcg :=
  onMemory data true flexible mcgRead

end Reading

/-! ## Writing -/

section Writing

open BinaryWriter

/-- The arrays of offsets, one for each kind of list, of a table that is not empty. -/
def mcgAllocOffsets (count : Nat) : WriteM Unit := given (0 < count) () (onHeap Heap.allocBoth)

/-- The lists of an edge, with their offsets. -/
def mcgWriteEdgeIndices (e : McgEdge) : WriteM (Int32 × Int32) := do
  let a ← noteI32s e.unkIndicesA
  let b ← noteI32s e.unkIndicesB
  pure (a, b)

/-- The lists of a node. The offset of an empty list is zero. -/
def mcgWriteNodeIndices (n : McgNode) : WriteM (Int32 × Int32) := do
  let a ← noteI32s n.connectedNodeIndices
  let b ← noteI32s n.connectedEdgeIndices
  pure (if n.connectedNodeIndices.length = 0 then 0 else a, if n.connectedEdgeIndices.length = 0 then 0 else b)

def mcgWriteEdge (e : McgEdge) (offsets : Int32 × Int32) : WriteM Unit := do
  writeI32 e.nodeIndexA
  writeI32 (Int32.ofNat e.unkIndicesA.length)
  writeI32 offsets.1
  writeI32 e.nodeIndexB
  writeI32 (Int32.ofNat e.unkIndicesB.length)
  writeI32 offsets.2
  writeI32 e.mcpRoomIndex
  writeU32 e.mapId
  writeF32 e.unk20

def mcgWriteNode (n : McgNode) (offsets : Int32 × Int32) : WriteM Unit := do
  writeI32 (Int32.ofNat n.connectedNodeIndices.length)
  writeVec3 n.position
  writeI32 offsets.1
  writeI32 offsets.2
  writeI32 n.unk18
  writeI32 n.unk1c

/-- What `sf_mcg_write_to_memory` does with its writer. -/
def mcgWrite (m : Mcg) : WriteM Unit := do
  mcgAllocOffsets m.edges.length
  mcgAllocOffsets m.nodes.length
  writeI32 1
  writeI32 m.unk04
  writeI32 (Int32.ofNat m.nodes.length)
  reserveI32 (cstr "NodesOffset")
  writeI32 (Int32.ofNat m.edges.length)
  reserveI32 (cstr "EdgesOffset")
  writeI32 m.unk18
  writeI32 m.unk1c
  let edgeOffsets ← noteEach mcgWriteEdgeIndices m.edges
  let nodeOffsets ← noteEach mcgWriteNodeIndices m.nodes
  let edgesPos ← peek position
  check (edgesPos ≤ INT32_MAX) .outOfRange
  fillI32 (cstr "EdgesOffset") (Int32.ofNat edgesPos)
  writeEach (fun e => mcgWriteEdge e.1 e.2) (m.edges.zip edgeOffsets)
  let nodesPos ← peek position
  check (nodesPos ≤ INT32_MAX) .outOfRange
  fillI32 (cstr "NodesOffset") (Int32.ofNat nodesPos)
  writeEach (fun n => mcgWriteNode n.1 n.2) (m.nodes.zip nodeOffsets)

/-- `sf_mcg_write_to_memory`. -/
def mcgWriteToMemory (m : Mcg) : Fallible Heap SfError (List UInt8) :=
  if INT32_MAX < m.nodes.length ∨ INT32_MAX < m.edges.length then fail .outOfRange
  else writeToMemory m.bigEndian (mcgWrite m)

end Writing

end SoulsFormats
