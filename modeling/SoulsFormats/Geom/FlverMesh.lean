import SoulsFormats.Geom.FaceSet
import SoulsFormats.Geom.FlverVertex

set_option autoImplicit false

/-! # Decoding the meshes of FLVER2 models

`flver2_decode.c`: the vertices of a mesh lie in several buffers, each with a layout of its own. Every vertex is
unpacked once per buffer, and what a buffer's members have is merged into one vertex; the arrays of the decoded
mesh are chosen from the members beforehand. -/

namespace SoulsFormats.Flver

open Fallible

/-! ## Models -/

/-- `sf_flver2_vertex_buffer`, with what its reader makes sure of. -/
structure VertexBuffer where
  layoutIndex : Int
  vertexSize : Nat
  vertexCount : Nat
  vertexBytes : List UInt8
  vertexSize_lt : vertexSize < 2 ^ 31
  vertexCount_lt : vertexCount < 2 ^ 31
  sized : vertexBytes.length = vertexSize * vertexCount

/-- `sf_flver2_mesh`, as far as it is decoded. -/
structure Flver2Mesh where
  vertexBufferIndices : List Int
  faceSetIndices : List Int

/-- `sf_flver2_face_set` with its flags. -/
structure FlaggedFaceSet where
  flags : UInt32
  faceSet : Flver2FaceSet

/-- `sf_flver2`; the counts of the header are the lengths of the arrays. -/
structure Flver2 where
  version : UInt32
  meshes : List Flver2Mesh
  vertexBuffers : List VertexBuffer
  bufferLayouts : List BufferLayout
  faceSets : List FlaggedFaceSet

/-- `sf_flver2_decoded_mesh`. An absent array is `none`; the channels that are there come first. -/
structure DecodedMesh where
  vertexCount : Nat
  positions : List Vec3
  normals : Option (List Vec3)
  tangents : Option (List Vec4)
  bitangents : Option (List Vec3)
  uvs : List (List Vec2)
  colors : List (List VertexColor)
  boneIndices : Option (List (Four Int))
  boneWeights : Option (List (Four Scalar))
  indices : List UInt32
  indexCount : Nat

/-- What `memset` leaves, with the vertex count. -/
def DecodedMesh.blank (vertexCount : Nat) : DecodedMesh where
  vertexCount := vertexCount
  positions := []
  normals := none
  tangents := none
  bitangents := none
  uvs := []
  colors := []
  boneIndices := none
  boneWeights := none
  indices := []
  indexCount := 0

/-- An array element by an index of the file, which is compared with the count first. -/
def elementAt {α : Type} (l : List α) (i : Int) : Except SfError α :=
  if 0 ≤ i then
    match l[i.toNat]? with
    | some a => .ok a
    | none => .error .outOfRange
  else .error .outOfRange

namespace Flver2

variable (f : Flver2)

/-- The buffers of a mesh, which have the same number of vertices. -/
def meshBuffers (mesh : Flver2Mesh) : Except SfError (List VertexBuffer) :=
  match mesh.vertexBufferIndices with
  | [] => .error .outOfRange
  | i0 :: rest => do
    let vb0 ← elementAt f.vertexBuffers i0
    let others ← rest.mapM fun i => do
      let vb ← elementAt f.vertexBuffers i
      if vb.vertexCount = vb0.vertexCount then pure vb else .error .outOfRange
    pure (vb0 :: others)

def layoutOf (vb : VertexBuffer) : Except SfError BufferLayout := elementAt f.bufferLayouts vb.layoutIndex

end Flver2

/-! ## Which arrays there are -/

/-- The attributes that the members of the layouts ask for. -/
structure Attributes where
  hasNormal : Bool
  hasTangent : Bool
  hasBitangent : Bool
  hasBoneIndices : Bool
  hasBoneWeights : Bool
  maxUvCount : Nat
  maxColorCount : Nat

def Attributes.none : Attributes := ⟨false, false, false, false, false, 0, 0⟩

/-- `if (member->index + 1 > max) max = (uint8_t)(member->index + 1)`. -/
def raiseCount (max : Nat) (index : Int) : Except SfError Nat :=
  if index = INT32_MAX then .error .undefinedBehaviour
  else pure (if (max : Int) < index + 1 then (index + 1).toNat % 256 else max)

def scanMember (a : Attributes) (member : LayoutMember) : Except SfError Attributes :=
  match member.semantic with
  | .normal => pure { a with hasNormal := true }
  | .tangent => pure { a with hasTangent := true }
  | .bitangent => pure { a with hasBitangent := true }
  | .boneIndices => pure { a with hasBoneIndices := true }
  | .boneWeights => pure { a with hasBoneWeights := true }
  | .uv => do
    let maxUvCount ← raiseCount a.maxUvCount member.index
    pure { a with maxUvCount }
  | .vertexColor => do
    let maxColorCount ← raiseCount a.maxColorCount member.index
    pure { a with maxColorCount }
  | _ => pure a

def scanBuffer (f : Flver2) (a : Attributes) (vb : VertexBuffer) : Except SfError Attributes := do
  let layout ← f.layoutOf vb
  layout.members.foldlM scanMember a

/-! ## One vertex -/

/-- The members of the vertex that begins at this offset of the buffer. -/
def BufferLayout.at (layout : BufferLayout) (offset : Nat) : BufferLayout where
  members := layout.members.map fun m => { m with structOffset := offset + m.structOffset }

/-- What one member takes over from the vertex of its buffer. -/
def mergeMember (decoded merged : DecodedVertex) (member : LayoutMember) : Except SfError DecodedVertex :=
  match member.semantic with
  | .position => pure { merged with position := decoded.position }
  | .normal => pure { merged with normal := decoded.normal }
  | .tangent => pure { merged with tangent := decoded.tangent }
  | .bitangent => pure { merged with bitangent := decoded.bitangent }
  | .boneIndices => pure { merged with boneIndices := decoded.boneIndices }
  | .boneWeights => pure { merged with boneWeights := decoded.boneWeights }
  | .uv =>
    if member.index < 8 then
      if 0 ≤ member.index then
        let k := member.index.toNat
        pure { merged with uvs := merged.uvs.setIfInBounds k (decoded.uvs[k]?.getD .zero) }
      else .error .undefinedBehaviour
    else pure merged
  | .vertexColor =>
    if member.index < 4 then
      if 0 ≤ member.index then
        let k := member.index.toNat
        pure { merged with colors := merged.colors.setIfInBounds k (decoded.colors[k]?.getD .zero) }
      else .error .undefinedBehaviour
    else pure merged
  | .other _ => pure merged

/-- The vertex at `v * vertex_size`, which is computed in 32 bits. -/
def mergeBuffer (f : Flver2) (ctx : VertexContext) (v : Nat) (merged : DecodedVertex) (vb : VertexBuffer) :
    Except SfError DecodedVertex := do
  let layout ← f.layoutOf vb
  let decoded ← vertexDecodeOne (layout.at (v * vb.vertexSize % 2 ^ 32)) vb.vertexBytes ctx
  layout.members.foldlM (mergeMember decoded) merged

def mergedVertex (f : Flver2) (ctx : VertexContext) (buffers : List VertexBuffer) (v : Nat) :
    Except SfError DecodedVertex :=
  buffers.foldlM (mergeBuffer f ctx v) .zero

/-! ## Meshes -/

def SF_FLVER2_FS_FLAGS_LOD_LEVEL_1 : UInt32 := 0x01000000
def SF_FLVER2_FS_FLAGS_LOD_LEVEL_2 : UInt32 := 0x02000000
def SF_FLVER2_FS_FLAGS_LOD_LEVEL_EX : UInt32 := 0x04000000

/-- The face set of the finest level of detail among those of the mesh. -/
def bestFaceSet (f : Flver2) : List Int → Option Int
  | [] => none
  | i :: rest =>
    match elementAt f.faceSets i with
    | .ok fs =>
      if fs.flags &&& (SF_FLVER2_FS_FLAGS_LOD_LEVEL_1 ||| SF_FLVER2_FS_FLAGS_LOD_LEVEL_2 |||
          SF_FLVER2_FS_FLAGS_LOD_LEVEL_EX) = 0 then some i else bestFaceSet f rest
    | .error _ => bestFaceSet f rest

/-- The triangles of the face set, the first where there is no best one. -/
def meshIndices (f : Flver2) (mesh : Flver2Mesh) : Fallible Heap SfError (List UInt32 × Nat) :=
  match (bestFaceSet f mesh.faceSetIndices).getD (mesh.faceSetIndices.headD (-1)) with
  | -1 => pure ([], 0)
  | i =>
    match elementAt f.faceSets i with
    | .ok fs => flver2FaceSetTriangulate fs.faceSet true
    | .error _ => fail .undefinedBehaviour

def allocIf (c : Bool) : Fallible Heap SfError Unit := do
  let _ ← given c [] Heap.alloc
  pure ()

/-- That many arrays. -/
def allocMany : Nat → Fallible Heap SfError Unit
  | 0 => pure ()
  | n + 1 => do
    let _ ← Heap.alloc
    allocMany n

def uvFactorOf (version : UInt32) : ℚ := if 0x2001A ≤ version then 1024 else 2048

/-- The arrays from the merged vertices. -/
def gatherMesh (a : Attributes) (vertices : List DecodedVertex) (indices : List UInt32 × Nat) : DecodedMesh where
  vertexCount := vertices.length
  positions := vertices.map DecodedVertex.position
  normals := if a.hasNormal then some (vertices.map DecodedVertex.normal) else none
  tangents := if a.hasTangent then some (vertices.map DecodedVertex.tangent) else none
  bitangents := if a.hasBitangent then some (vertices.map DecodedVertex.bitangent) else none
  uvs := (List.range (min a.maxUvCount 8)).map fun k => vertices.map fun v => v.uvs[k]?.getD .zero
  colors := (List.range (min a.maxColorCount 4)).map fun k => vertices.map fun v => v.colors[k]?.getD .zero
  boneIndices := if a.hasBoneIndices then some (vertices.map DecodedVertex.boneIndices) else none
  boneWeights := if a.hasBoneWeights then some (vertices.map DecodedVertex.boneWeights) else none
  indices := indices.1
  indexCount := indices.2 % 2 ^ 32

/-- The number of vertices is that of the first buffer. -/
def vertexCountOf (buffers : List VertexBuffer) : Nat := (buffers.head?.map VertexBuffer.vertexCount).getD 0

/-- `sf_flver2_decode_mesh`. -/
def flver2DecodeMesh (f : Flver2) (meshIndex : Nat) : Fallible Heap SfError DecodedMesh := do
  let mesh ← lift (elementAt f.meshes meshIndex)
  let buffers ← lift (f.meshBuffers mesh)
  let vertexCount := vertexCountOf buffers
  if vertexCount = 0 then pure (.blank 0)
  else do
    let _ ← Heap.alloc
    let a ← lift (buffers.foldlM (scanBuffer f) .none)
    allocIf a.hasNormal
    allocIf a.hasTangent
    allocIf a.hasBitangent
    allocIf a.hasBoneIndices
    allocIf a.hasBoneWeights
    allocMany (min a.maxUvCount 8)
    allocMany (min a.maxColorCount 4)
    let vertices ← lift ((List.range vertexCount).mapM (mergedVertex f ⟨uvFactorOf f.version⟩ buffers))
    let indices ← meshIndices f mesh
    pure (gatherMesh a vertices indices)

end SoulsFormats.Flver
