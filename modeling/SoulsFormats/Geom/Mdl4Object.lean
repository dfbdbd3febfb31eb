import SoulsFormats.Core.Construction
import SoulsFormats.Geom.Mdl4

set_option autoImplicit false

/-! # The object of an MDL4 model while it is read

`populate` of `mdl4.c`, with the fields of its object one by one. The header with the counts of dummies, materials,
bones and meshes comes first, then the four arrays are asked for, and then they are filled. A count is stored before
its array is allocated, and what cleans up trusts the count. -/

namespace SoulsFormats

open Bytes Fallible BinaryReader Built Construct

/-! ## The object -/

/-- `sf_mdl4_material` with its count. -/
structure Mdl4MaterialObject where
  name : Option (List UInt8) := none
  shader : Option (List UInt8) := none
  unk3c : UInt8 := 0
  unk3d : UInt8 := 0
  unk3e : UInt8 := 0
  paramCount : Nat := 0
  params : List Mdl4MaterialParam := []
deriving DecidableEq

def Mdl4MaterialObject.paramTable : TableOf Mdl4MaterialObject Mdl4MaterialParam where
  get o := o.params
  set l o := { o with params := l }
  get_set _ _ := rfl
  set_set _ _ _ := rfl
  set_get _ := rfl

/-- The objects of what is read. -/
def Mdl4Material.object (m : Mdl4Material) : Mdl4MaterialObject :=
  ⟨some m.name, some m.shader, m.unk3c, m.unk3d, m.unk3e, m.params.length, m.params⟩

def zeroVec3 : Vec3 := ⟨0, 0, 0⟩

def zeroMdl4Header : Mdl4FileHeader := ⟨⟨0, 0, 0, 0, zeroVec3, zeroVec3, 0, 0⟩, 0, 0, 0, 0⟩

def zeroMdl4Dummy : Mdl4Dummy := ⟨zeroVec3, zeroVec3, 0, 0, 0, 0, 0⟩

def zeroMdl4Param : Mdl4MaterialParam := ⟨[], .int 0⟩

def zeroMdl4Material : Mdl4MaterialObject := {}

def zeroMdl4Node : Mdl4Node := ⟨[], zeroVec3, zeroVec3, zeroVec3, zeroVec3, zeroVec3, 0, 0, 0, 0, .ofList 16 0 []⟩

def zeroMdl4Mesh : Mdl4Mesh := ⟨0, 0, false, false, 0, .ofList 28 0 [], [], [], 0, .ofList 16 [] []⟩

/-- `sf_mdl4`, as `memset` leaves it at first. -/
structure Mdl4Object where
  header : Mdl4FileHeader := zeroMdl4Header
  dummies : List Mdl4Dummy := []
  materials : List Mdl4MaterialObject := []
  nodes : List Mdl4Node := []
  meshes : List Mdl4Mesh := []

namespace Mdl4Object

def dummyTable : TableOf Mdl4Object Mdl4Dummy where
  get o := o.dummies
  set l o := { o with dummies := l }
  get_set _ _ := rfl
  set_set _ _ _ := rfl
  set_get _ := rfl

def materialTable : TableOf Mdl4Object Mdl4MaterialObject where
  get o := o.materials
  set l o := { o with materials := l }
  get_set _ _ := rfl
  set_set _ _ _ := rfl
  set_get _ := rfl

def nodeTable : TableOf Mdl4Object Mdl4Node where
  get o := o.nodes
  set l o := { o with nodes := l }
  get_set _ _ := rfl
  set_set _ _ _ := rfl
  set_get _ := rfl

def meshTable : TableOf Mdl4Object Mdl4Mesh where
  get o := o.meshes
  set l o := { o with meshes := l }
  get_set _ _ := rfl
  set_set _ _ _ := rfl
  set_get _ := rfl

/-- Work on the header. -/
def onHeader {α : Type} (m : ConstructM Mdl4FileHeader α) : ConstructM Mdl4Object α :=
  zoom (fun b => { source := b.source, object := b.object.header, log := b.log })
    (fun h b => { source := h.source, object := { b.object with header := h.object }, log := h.log }) m

end Mdl4Object

open Mdl4Object

/-! ## The header -/

/-- A value that is read into a field. -/
def storeField {η α : Type} (read : ReadM α) (set : α → η → η) : ConstructM η Unit := do
  let v ← reading read
  assign (set v)

/-- `read_header` up to the counts. -/
def mdl4BuildFront : ConstructM Mdl4FileHeader Unit := do
  reading (setBigEndian true)
  reading (assertAscii (cstr "MDL4"))
  storeField readU32 fun v h => { h with version := v }
  let b ← state
  check (mdl4VersionSupported b.object.version = true) .unsupportedVersion
  storeField readI32 fun v h => { h with dataOffset := v }
  storeField readI32 fun v h => { h with dataLength := v }

/-- `read_header` after the number of meshes. -/
def mdl4BuildTail : ConstructM Mdl4FileHeader Unit := do
  storeField readI32 fun v h => { h with vertexBufferCount := v }
  storeField readVec3 fun v h => { h with bboxMin := v }
  storeField readVec3 fun v h => { h with bboxMax := v }
  storeField readI32 fun v h => { h with faceCount := v }
  storeField readI32 fun v h => { h with totalFaceCount := v }
  reading (assertPattern 0x3C 0)
  let b ← state
  check (countValid b.object.dummyCount mdl4DummySize = true ∧ countValid b.object.materialCount mdl4MaterialSize = true ∧
    countValid b.object.boneCount mdl4NodeSize = true ∧ countValid b.object.meshCount mdl4MeshSize = true) .outOfRange

/-- `read_header`. -/
def mdl4BuildHeader : ConstructM Mdl4FileHeader Unit := do
  mdl4BuildFront
  storeField readI32 fun v h => { h with dummyCount := v }
  storeField readI32 fun v h => { h with materialCount := v }
  storeField readI32 fun v h => { h with boneCount := v }
  storeField readI32 fun v h => { h with meshCount := v }
  mdl4BuildTail

/-! ## Arrays -/

/-- `alloc_array`: an array of zeros, or nothing. -/
def allocArray {τ : Type} (count : Int32) (elemSize : Nat) (zero : τ) : ReadM (List τ) :=
  if countValid count elemSize = true ∧ count ≠ 0 then do
    let p ← attempt (onHeap Heap.alloc)
    match p with
    | .ok _ => pure (List.replicate count.toInt.toNat zero)
    | .error _ => pure []
  else pure []

/-- A count is positive, but its array is not there. -/
def ArrayAbsent {τ : Type} (count : Int32) (l : List τ) : Prop := 0 < count.toInt ∧ l.isEmpty = true

instance {τ : Type} (count : Int32) (l : List τ) : Decidable (ArrayAbsent count l) :=
  inferInstanceAs (Decidable (_ ∧ _))

/-- The four arrays after they were asked for. -/
structure Mdl4ArrayBlocks where
  dummies : List Mdl4Dummy
  materials : List Mdl4MaterialObject
  nodes : List Mdl4Node
  meshes : List Mdl4Mesh

def mdl4AllocArrays (h : Mdl4FileHeader) : ReadM Mdl4ArrayBlocks := do
  let dummies ← allocArray h.dummyCount mdl4DummySize zeroMdl4Dummy
  let materials ← allocArray h.materialCount mdl4MaterialSize zeroMdl4Material
  let nodes ← allocArray h.boneCount mdl4NodeSize zeroMdl4Node
  let meshes ← allocArray h.meshCount mdl4MeshSize zeroMdl4Mesh
  pure ⟨dummies, materials, nodes, meshes⟩

/-- One of the arrays that `sf_mdl4_destroy` walks is not there. -/
def Mdl4FileHeader.Absent (h : Mdl4FileHeader) (arrays : Mdl4ArrayBlocks) : Prop :=
  ArrayAbsent h.materialCount arrays.materials ∨ ArrayAbsent h.boneCount arrays.nodes ∨
    ArrayAbsent h.meshCount arrays.meshes

instance (h : Mdl4FileHeader) (arrays : Mdl4ArrayBlocks) : Decidable (h.Absent arrays) :=
  inferInstanceAs (Decidable (_ ∨ _ ∨ _))

/-! ## Materials -/

section

variable (os : Win32)

def mdl4ParamSize : Nat := 48

/-- `read_material` up to its number of parameters and their offset. -/
def mdl4BuildMaterialHead : ConstructM Mdl4MaterialObject (UInt8 × Nat) := do
  storeField (readFixStr os 0x1F) fun v m => { m with name := some v }
  storeField (readFixStr os 0x1D) fun v m => { m with shader := some v }
  storeField readU8 fun v m => { m with unk3c := v }
  storeField readU8 fun v m => { m with unk3d := v }
  storeField readU8 fun v m => { m with unk3e := v }
  let paramCount ← reading readU8
  let paramsOffset ← reading (peek position)
  pure (paramCount, paramsOffset)

/-- `read_material`. -/
def mdl4BuildMaterial : ConstructM Mdl4MaterialObject Unit := do
  let (paramCount, paramsOffset) ← mdl4BuildMaterialHead os
  assign fun m => { m with paramCount := paramCount.toNat }
  let params ← reading (allocArray (Int32.ofNat paramCount.toNat) mdl4ParamSize zeroMdl4Param)
  assign fun m => { m with params := params }
  check (¬ (0 < paramCount ∧ params.isEmpty = true)) .oom
  upTo (readElement Mdl4MaterialObject.paramTable zeroMdl4Param (mdl4ReadParam os)) paramCount.toNat 0
  reading (onStream (IStream.seek (paramsOffset + 0x800)))

/-- What `sf_mdl4_destroy` does with a material. -/
def mdl4FreeMaterial : ConstructM Mdl4MaterialObject Unit := do
  let b ← state
  upTo (fun j => access Mdl4MaterialObject.paramTable j) b.object.paramCount 0

/-! ## The model -/

/-- The loops of `populate`. -/
def mdl4FillArrays (h : Mdl4FileHeader) : ConstructM Mdl4Object Unit := do
  upTo (readElement dummyTable zeroMdl4Dummy mdl4ReadDummy) h.dummyCount.toInt.toNat 0
  upTo (fun i => element materialTable zeroMdl4Material i (mdl4BuildMaterial os)) h.materialCount.toInt.toNat 0
  upTo (readElement nodeTable zeroMdl4Node (mdl4ReadNode os)) h.boneCount.toInt.toNat 0
  upTo (readElement meshTable zeroMdl4Mesh (mdl4ReadMesh h.toMdl4Header)) h.meshCount.toInt.toNat 0

/-- `populate`, without what it does on a failure. -/
def mdl4Populate : ConstructM Mdl4Object Unit := do
  onHeader mdl4BuildHeader
  let b ← state
  let arrays ← reading (mdl4AllocArrays b.object.header)
  assign fun o => ⟨o.header, arrays.dummies, arrays.materials, arrays.nodes, arrays.meshes⟩
  check (¬ (ArrayAbsent b.object.header.dummyCount arrays.dummies ∨ b.object.header.Absent arrays)) .oom
  mdl4FillArrays os b.object.header

/-- `sf_mdl4_destroy`. -/
def mdl4Destroy : ConstructM Mdl4Object Unit := do
  let b ← state
  upTo (fun i => element materialTable zeroMdl4Material i mdl4FreeMaterial) b.object.header.materialCount.toInt.toNat 0
  upTo (fun i => access nodeTable i) b.object.header.boneCount.toInt.toNat 0
  upTo (fun i => access meshTable i) b.object.header.meshCount.toInt.toNat 0

/-- `populate`; who gets the object destroys it later. -/
def mdl4PopulateAndDestroy : ConstructM Mdl4Object Unit := do
  onFailure (mdl4Populate os) mdl4Destroy
  mdl4Destroy

/-- The accesses to the arrays of the object that `sf_mdl4_read_from_memory` builds, up to its destruction; there are
none if there is no object. -/
def mdl4Accesses (flexible : Bool) (data : List UInt8) : Fallible Heap SfError (List Access) :=
  onMemory data true flexible do
    let _ ← onHeap Heap.alloc
    Construct.logOf {} (mdl4PopulateAndDestroy os)

end

end SoulsFormats
