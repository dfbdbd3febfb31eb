import SoulsFormats.Core.Result
import SoulsFormats.Library.Binary32

set_option autoImplicit false

/-! # Vertices of FLVER2 models

`flver2_vertex.c`: a vertex is unpacked from the bytes of a buffer and packed into them again, one layout
member after another. A component is the bits of a stored float or, where a byte or a short was normalised,
the exact quotient; bits are moved as they are, and arithmetic is exact until a cast. A read outside the
vertex bytes, a channel past the end of its array and a cast of a number that its type does not have are
undefined behaviour. -/

namespace SoulsFormats.Flver

open Bytes

/-! ## Layouts -/

/-- `sf_flver_layout_type`. -/
inductive LayoutType where
  | float1
  | float2
  | float3
  | float4
  | color
  | ubyte4
  | byte4
  | ubyte4Norm
  | byte4Norm
  | short2
  | short4
  | ushort2
  | ushort4
  | short4Norm
  | half2
  | half4
  | byte4E
  | edgeCompressed
  | other (code : UInt32)
deriving DecidableEq, Repr

/-- `sf_flver_layout_semantic`. -/
inductive LayoutSemantic where
  | position
  | boneWeights
  | boneIndices
  | normal
  | uv
  | tangent
  | bitangent
  | vertexColor
  | other (code : UInt32)
deriving DecidableEq, Repr

/-- `sf_flver2_layout_member`. -/
structure LayoutMember where
  structOffset : Int
  type : LayoutType
  semantic : LayoutSemantic
  index : Int
  specialModifier : Int
deriving DecidableEq, Repr

/-- `sf_flver2_buffer_layout`. -/
structure BufferLayout where
  members : List LayoutMember
deriving DecidableEq, Repr

/-- The modifier of members that store nothing. -/
def LayoutMember.Special (m : LayoutMember) : Prop := m.specialModifier = -32768

instance (m : LayoutMember) : Decidable m.Special := inferInstanceAs (Decidable (_ = _))

/-- `sf_flver_layout_type_size` of a member that is not special; `UINT32_MAX` stands for a failure. -/
def LayoutType.size : LayoutType → Nat
  | .edgeCompressed => 2 ^ 32 - 1
  | .float1 | .color | .ubyte4 | .byte4 | .ubyte4Norm | .byte4Norm | .short2 | .ushort2 | .byte4E | .half2 => 4
  | .float2 | .short4 | .ushort4 | .short4Norm | .half4 => 8
  | .float3 => 12
  | .float4 => 16
  | .other _ => 2 ^ 32 - 1

/-- `sf_flver_layout_type_size`. -/
def LayoutMember.size (m : LayoutMember) : Nat := if m.Special then 0 else m.type.size

/-! ## Components -/

/-- A `float`: bits from a file, or the exact result of arithmetic. -/
inductive Scalar where
  | stored (bits : UInt32)
  | exact (q : ℚ)
deriving DecidableEq, Repr

namespace Scalar

/-- The number of a component; infinities and NaNs are none. -/
def value : Scalar → Option ℚ
  | stored bits => Binary32.value bits.toNat
  | exact q => some q

/-- The bits that a store of the component leaves. -/
def bits : Scalar → UInt32
  | stored bits => bits
  | exact q => UInt32.ofNat (Binary32.nearest q)

/-- Division; by zero it leaves an infinity or a NaN. -/
def quotient (a b : ℚ) : Scalar :=
  if b = 0 then stored (if a = 0 then 0x7FC00000 else if 0 < a then 0x7F800000 else 0xFF800000)
  else exact (a / b)

end Scalar

/-- `roundf`: the nearest integer, ties away from zero. -/
def roundAway (q : ℚ) : Int := if 0 ≤ q then ⌊q + 1 / 2⌋ else -⌊-q + 1 / 2⌋

/-- The conversion of a float to an integer type with these bounds, towards zero. -/
def truncateTo (lo hi : Int) : Option ℚ → Except SfError Int
  | none => .error .undefinedBehaviour
  | some q =>
    let n := if 0 ≤ q then ⌊q⌋ else ⌈q⌉
    if lo ≤ n ∧ n ≤ hi then .ok n else .error .undefinedBehaviour

/-! ## Integers and floats in memory -/

/-- The bytes of an object in the vertex bytes. -/
def bytesAt (mem : List UInt8) (p : Int) (n : Nat) : Except SfError (List UInt8) :=
  if 0 ≤ p ∧ p.toNat + n ≤ mem.length then .ok ((mem.drop p.toNat).take n) else .error .undefinedBehaviour

/-- An integer type: its bytes and its least value, which is zero or that of two's complement. -/
structure IntType where
  bytes : Nat
  lo : Int
  wide : lo = 0 ∨ 2 * lo = -256 ^ bytes

def u8 : IntType := ⟨1, 0, by decide⟩
def i8 : IntType := ⟨1, -128, by decide⟩
def u16 : IntType := ⟨2, 0, by decide⟩
def i16 : IntType := ⟨2, -32768, by decide⟩

namespace IntType

variable (t : IntType)

/-- The greatest value. -/
def hi : Int := t.lo + 256 ^ t.bytes - 1

/-- `read_u8`, `read_i8`, `read_u16`, `read_i16`. -/
def read (mem : List UInt8) (p : Int) : Except SfError Int := do
  let bs ← bytesAt mem p t.bytes
  pure (if (leNat bs : Int) ≤ t.hi then (leNat bs : Int) else leNat bs - 256 ^ t.bytes)

/-- `write_u8`, `write_i8`, `write_u16`, `write_i16`; an integer is converted modulo the width. -/
def write (v : Int) : List UInt8 := leBytes t.bytes (v % 256 ^ t.bytes).toNat

/-- The cast of `roundf` of a number, written. -/
def writeRounded (q : Option ℚ) : Except SfError (List UInt8) := do
  let n ← truncateTo t.lo t.hi (q.map fun q => (roundAway q : ℚ))
  pure (t.write n)

/-- A component `(read - bias) / scale`. -/
def readNorm (scale bias : ℚ) (mem : List UInt8) (p : Int) : Except SfError Scalar := do
  let n ← t.read mem p
  pure (.exact ((n - bias) / scale))

/-- `roundf(v * scale + bias)`, cast and written. -/
def writeNorm (scale bias : ℚ) (s : Scalar) : Except SfError (List UInt8) :=
  t.writeRounded (s.value.map fun q => q * scale + bias)

end IntType

/-- `read_f32`. -/
def readF32 (mem : List UInt8) (p : Int) : Except SfError Scalar := do
  let bs ← bytesAt mem p 4
  pure (.stored (UInt32.ofNat (leNat bs)))

/-- `write_f32`. -/
def writeF32 (s : Scalar) : List UInt8 := leBytes 4 s.bits.toNat

/-! ## Vectors -/

structure Vec2 where
  x : Scalar
  y : Scalar
deriving DecidableEq, Repr

structure Vec3 where
  x : Scalar
  y : Scalar
  z : Scalar
deriving DecidableEq, Repr

structure Vec4 where
  x : Scalar
  y : Scalar
  z : Scalar
  w : Scalar
deriving DecidableEq, Repr

/-- `sf_flver_vertex_color`. -/
structure VertexColor where
  a : Scalar
  r : Scalar
  g : Scalar
  b : Scalar
deriving DecidableEq, Repr

/-- The arrays of `sf_flver_vertex_bone_indices` and `sf_flver_vertex_bone_weights`. -/
structure Four (α : Type) where
  v0 : α
  v1 : α
  v2 : α
  v3 : α
deriving DecidableEq, Repr

section

variable {α : Type} (read : Int → Except SfError α) (write : α → Except SfError (List UInt8)) (p step : Int)

/-- Two components, one after the other. -/
def readTwo : Except SfError (α × α) := do
  let a ← read p
  let b ← read (p + step)
  pure (a, b)

def writeTwo (a b : α) : Except SfError (List UInt8) := do
  let x ← write a
  let y ← write b
  pure (x ++ y)

def readThree : Except SfError (α × α × α) := do
  let a ← read p
  let bc ← readTwo read (p + step) step
  pure (a, bc)

def writeThree (a b c : α) : Except SfError (List UInt8) := do
  let x ← write a
  let y ← writeTwo write b c
  pure (x ++ y)

def readFour : Except SfError (α × α × α × α) := do
  let a ← read p
  let bcd ← readThree read (p + step) step
  pure (a, bcd)

def writeFour (a b c d : α) : Except SfError (List UInt8) := do
  let x ← write a
  let y ← writeThree write b c d
  pure (x ++ y)

end

/-- `read_byte_norm_xyz` and its like: three components in the order x, y, z. -/
def readXyz (read : Int → Except SfError Scalar) (p step : Int) : Except SfError Vec3 := do
  let (x, y, z) ← readThree read p step
  pure ⟨x, y, z⟩

def writeXyz (write : Scalar → Except SfError (List UInt8)) (v : Vec3) : Except SfError (List UInt8) :=
  writeThree write v.x v.y v.z

/-- `read_byte_norm_xyzw` and its like. -/
def readXyzw (read : Int → Except SfError Scalar) (p step : Int) : Except SfError Vec4 := do
  let (x, y, z, w) ← readFour read p step
  pure ⟨x, y, z, w⟩

def writeXyzw (write : Scalar → Except SfError (List UInt8)) (v : Vec4) : Except SfError (List UInt8) :=
  writeFour write v.x v.y v.z v.w

/-- `read_float_rgba` and `read_byte_rgba`. -/
def readRgba (read : Int → Except SfError Scalar) (p step : Int) : Except SfError VertexColor := do
  let (r, g, b, a) ← readFour read p step
  pure { a, r, g, b }

def writeRgba (write : Scalar → Except SfError (List UInt8)) (c : VertexColor) : Except SfError (List UInt8) :=
  writeFour write c.r c.g c.b c.a

def storeF32 (s : Scalar) : Except SfError (List UInt8) := .ok (writeF32 s)

def readByteNormXyz (mem : List UInt8) (p : Int) : Except SfError Vec3 := readXyz (u8.readNorm 127 127 mem) p 1
def writeByteNormXyz (v : Vec3) : Except SfError (List UInt8) := writeXyz (u8.writeNorm 127 127) v

def readSbyteNormZyx (mem : List UInt8) (p : Int) : Except SfError Vec3 := do
  let (z, y, x) ← readThree (i8.readNorm 127 0 mem) p 1
  pure ⟨x, y, z⟩

def writeSbyteNormZyx (v : Vec3) : Except SfError (List UInt8) := writeThree (i8.writeNorm 127 0) v.z v.y v.x

def readShortNormXyz (mem : List UInt8) (p : Int) : Except SfError Vec3 := readXyz (i16.readNorm 32767 0 mem) p 2
def writeShortNormXyz (v : Vec3) : Except SfError (List UInt8) := writeXyz (i16.writeNorm 32767 0) v

def readUshortNormXyz (mem : List UInt8) (p : Int) : Except SfError Vec3 :=
  readXyz (u16.readNorm 32767 32767 mem) p 2

def writeUshortNormXyz (v : Vec3) : Except SfError (List UInt8) := writeXyz (u16.writeNorm 32767 32767) v

def readShortNormXyzAc6 (mem : List UInt8) (p : Int) : Except SfError Vec3 :=
  readXyz (i16.readNorm 32767 0 mem) p 2

def writeShortNormXyzAc6 (v : Vec3) : Except SfError (List UInt8) := writeXyz (i16.writeNorm 32767 0) v

def writeShortNormAc6 (w : Scalar) : Except SfError (List UInt8) := i16.writeNorm 32767 0 w

def readByteNormXyzw (mem : List UInt8) (p : Int) : Except SfError Vec4 := readXyzw (u8.readNorm 127 127 mem) p 1
def writeByteNormXyzw (v : Vec4) : Except SfError (List UInt8) := writeXyzw (u8.writeNorm 127 127) v

def readSbyteNormWzyx (mem : List UInt8) (p : Int) : Except SfError Vec4 := do
  let (w, z, y, x) ← readFour (i8.readNorm 127 0 mem) p 1
  pure ⟨x, y, z, w⟩

def writeSbyteNormWzyx (v : Vec4) : Except SfError (List UInt8) := writeFour (i8.writeNorm 127 0) v.w v.z v.y v.x

def readShortNormXyzw (mem : List UInt8) (p : Int) : Except SfError Vec4 :=
  readXyzw (i16.readNorm 32767 0 mem) p 2

def writeShortNormXyzw (v : Vec4) : Except SfError (List UInt8) := writeXyzw (i16.writeNorm 32767 0) v

def readFloatRgba (mem : List UInt8) (p : Int) : Except SfError VertexColor := readRgba (readF32 mem) p 4
def writeFloatRgba (c : VertexColor) : Except SfError (List UInt8) := writeRgba storeF32 c

def readByteRgba (mem : List UInt8) (p : Int) : Except SfError VertexColor := readRgba (u8.readNorm 255 0 mem) p 1
def writeByteRgba (c : VertexColor) : Except SfError (List UInt8) := writeRgba (u8.writeNorm 255 0) c

/-! ## Unpacking -/

/-- `sf_flver2_vertex_context`, as far as it is read. -/
structure VertexContext where
  uvFactor : ℚ

/-- `sf_flver2_decoded_vertex`. -/
structure DecodedVertex where
  position : Vec3
  normal : Vec3
  tangent : Vec4
  bitangent : Vec3
  uvs : Vector Vec2 8
  colors : Vector VertexColor 4
  boneIndices : Four Int
  boneWeights : Four Scalar
  uvCount : Nat
  colorCount : Nat
  normalW : Int
deriving DecidableEq

def Scalar.zero : Scalar := .stored 0
def Vec2.zero : Vec2 := ⟨.zero, .zero⟩
def Vec3.zero : Vec3 := ⟨.zero, .zero, .zero⟩
def VertexColor.zero : VertexColor := ⟨.zero, .zero, .zero, .zero⟩

namespace DecodedVertex

/-- What `memset` leaves. -/
def zero : DecodedVertex where
  position := .zero
  normal := .zero
  tangent := ⟨.zero, .zero, .zero, .zero⟩
  bitangent := .zero
  uvs := Vector.replicate 8 .zero
  colors := Vector.replicate 4 .zero
  boneIndices := ⟨0, 0, 0, 0⟩
  boneWeights := ⟨.zero, .zero, .zero, .zero⟩
  uvCount := 0
  colorCount := 0
  normalW := 0

/-- `out->uvs[out->uv_count] = uv; out->uv_count++`. -/
def pushUv (v : DecodedVertex) (uv : Vec2) : Except SfError DecodedVertex :=
  if h : v.uvCount < 8 then .ok { v with uvs := v.uvs.set v.uvCount uv h, uvCount := v.uvCount + 1 }
  else .error .undefinedBehaviour

/-- `out->colors[out->color_count++] = color`. -/
def pushColor (v : DecodedVertex) (color : VertexColor) : Except SfError DecodedVertex :=
  if h : v.colorCount < 4 then
    .ok { v with colors := v.colors.set v.colorCount color h, colorCount := v.colorCount + 1 }
  else .error .undefinedBehaviour

def uvAt (v : DecodedVertex) (i : Nat) : Except SfError Vec2 :=
  match v.uvs[i]? with
  | some uv => .ok uv
  | none => .error .undefinedBehaviour

def colorAt (v : DecodedVertex) (i : Nat) : Except SfError VertexColor :=
  match v.colors[i]? with
  | some c => .ok c
  | none => .error .undefinedBehaviour

end DecodedVertex

section

variable (mem : List UInt8) (p : Int)

def decodePosition : LayoutType → Except SfError Vec3
  | .float3 => readXyz (readF32 mem) p 4
  | .float4 => readXyz (readF32 mem) p 4
  | _ => .error .unsupportedVersion

/-- A weight stored with its top bit flipped. -/
def readBiasedWeight (p : Int) : Except SfError Scalar := do
  let weight ← u16.read mem p
  pure (.exact ((if 0x8000 ≤ weight then weight - 0x8000 else weight + 0x8000 : Int) / 65535))

def decodeBoneWeights : LayoutType → Except SfError (Four Scalar)
  | .color => do
    let (a, b, c, d) ← readFour (i8.readNorm 127 0 mem) p 1
    pure ⟨a, b, c, d⟩
  | .ubyte4Norm => do
    let (a, b, c, d) ← readFour (u8.readNorm 255 0 mem) p 1
    pure ⟨a, b, c, d⟩
  | .short4 => do
    let (a, b, c, d) ← readFour (readBiasedWeight mem) p 2
    pure ⟨a, b, c, d⟩
  | .short4Norm => do
    let (a, b, c, d) ← readFour (i16.readNorm 32767 0 mem) p 2
    pure ⟨a, b, c, d⟩
  | _ => .error .unsupportedVersion

/-- Two of the four indices of `old` stay where the type stores two. -/
def decodeBoneIndices (old : Four Int) : LayoutType → Except SfError (Four Int)
  | .ubyte4 | .byte4E | .byte4 => do
    let (a, b, c, d) ← readFour (u8.read mem) p 1
    pure ⟨a, b, c, d⟩
  | .ushort2 => do
    let (a, b) ← readTwo (u16.read mem) p 2
    pure { old with v0 := a, v1 := b }
  | .ushort4 => do
    let (a, b, c, d) ← readFour (u16.read mem) p 2
    pure ⟨a, b, c, d⟩
  | _ => .error .unsupportedVersion

/-- `(int32_t)read_f32(p)`. -/
def readTruncated (p : Int) : Except SfError Int := do
  let w ← readF32 mem p
  truncateTo (-2 ^ 31) (2 ^ 31 - 1) w.value

/-- The normal and its fourth component, which keeps the value `old` where there is none. -/
def decodeNormal (old : Int) : LayoutType → Except SfError (Vec3 × Int)
  | .float3 => do
    let n ← readXyz (readF32 mem) p 4
    pure (n, old)
  | .float4 => do
    let n ← readXyz (readF32 mem) p 4
    let w ← readTruncated mem (p + 12)
    pure (n, w)
  | .color | .ubyte4 | .ubyte4Norm | .byte4E => do
    let n ← readByteNormXyz mem p
    let w ← u8.read mem (p + 3)
    pure (n, w)
  | .byte4 => do
    let w ← u8.read mem p
    let n ← readSbyteNormZyx mem (p + 1)
    pure (n, w)
  | .short4Norm => do
    let n ← readShortNormXyz mem p
    let w ← i16.read mem (p + 6)
    pure (n, w)
  | .half4 => do
    let n ← readUshortNormXyz mem p
    let w ← i16.read mem (p + 6)
    pure (n, w)
  | .ushort4 => do
    let n ← readShortNormXyzAc6 mem p
    let w ← i16.read mem (p + 6)
    pure (n, w)
  | _ => .error .unsupportedVersion

/-- `read_i16(p) / uv_factor`. -/
def readScaled (factor : ℚ) (p : Int) : Except SfError Scalar := do
  let n ← i16.read mem p
  pure (.quotient n factor)

def readUv (read : Int → Except SfError Scalar) (p step : Int) : Except SfError Vec2 := do
  let (x, y) ← readTwo read p step
  pure ⟨x, y⟩

/-- The one or two pairs of a UV member. -/
def decodeUv (factor : ℚ) : LayoutType → Except SfError (List Vec2)
  | .float2 | .float3 => do
    let uv ← readUv (readF32 mem) p 4
    pure [uv]
  | .float4 => do
    let uv ← readUv (readF32 mem) p 4
    let uv' ← readUv (readF32 mem) (p + 8) 4
    pure [uv, uv']
  | .color | .ubyte4 | .byte4 | .short2 | .half2 => do
    let uv ← readUv (readScaled mem factor) p 2
    pure [uv]
  | .ubyte4Norm => do
    let uv ← readUv (u8.readNorm 255 0 mem) p 1
    let uv' ← readUv (u8.readNorm 255 0 mem) (p + 2) 1
    pure [uv, uv']
  | .short4 | .half4 => do
    let uv ← readUv (readScaled mem factor) p 2
    let uv' ← readUv (readScaled mem factor) (p + 4) 2
    pure [uv, uv']
  | _ => .error .unsupportedVersion

def decodeTangent : LayoutType → Except SfError Vec4
  | .float4 => readXyzw (readF32 mem) p 4
  | .color | .ubyte4 | .ubyte4Norm | .byte4E => readByteNormXyzw mem p
  | .byte4Norm => readSbyteNormWzyx mem p
  | .short4Norm => readShortNormXyzw mem p
  | _ => .error .unsupportedVersion

def decodeBitangent : LayoutType → Except SfError Vec3
  | .color | .ubyte4 | .ubyte4Norm | .byte4E => do
    let v ← readByteNormXyzw mem p
    pure ⟨v.x, v.y, v.z⟩
  | _ => .error .unsupportedVersion

def decodeColor : LayoutType → Except SfError VertexColor
  | .float4 => readFloatRgba mem p
  | .color | .ubyte4Norm => readByteRgba mem p
  | _ => .error .unsupportedVersion

end

/-- One round of `sfi_flver2_vertex_decode_one`. -/
def vertexDecodeMember (mem : List UInt8) (ctx : VertexContext) (out : DecodedVertex) (member : LayoutMember) :
    Except SfError DecodedVertex :=
  let p := member.structOffset
  if member.Special then .ok out
  else match member.semantic with
    | .position => do
      let position ← decodePosition mem p member.type
      pure { out with position }
    | .boneWeights => do
      let boneWeights ← decodeBoneWeights mem p member.type
      pure { out with boneWeights }
    | .boneIndices => do
      let boneIndices ← decodeBoneIndices mem p out.boneIndices member.type
      pure { out with boneIndices }
    | .normal => do
      let (normal, normalW) ← decodeNormal mem p out.normalW member.type
      pure { out with normal, normalW }
    | .uv => do
      let uvs ← decodeUv mem p ctx.uvFactor member.type
      uvs.foldlM DecodedVertex.pushUv out
    | .tangent => do
      let tangent ← decodeTangent mem p member.type
      pure { out with tangent }
    | .bitangent => do
      let bitangent ← decodeBitangent mem p member.type
      pure { out with bitangent }
    | .vertexColor => do
      let color ← decodeColor mem p member.type
      out.pushColor color
    | .other _ => .error .unsupportedVersion

/-- `sfi_flver2_vertex_decode_one`. -/
def vertexDecodeOne (layout : BufferLayout) (mem : List UInt8) (ctx : VertexContext) : Except SfError DecodedVertex :=
  layout.members.foldlM (vertexDecodeMember mem ctx) .zero

/-! ## Packing -/

def encodePosition (v : Vec3) : LayoutType → Except SfError (List UInt8)
  | .float3 => writeXyz storeF32 v
  | .float4 => do
    let xyz ← writeXyz storeF32 v
    pure (xyz ++ writeF32 .zero)
  | _ => .error .unsupportedVersion

/-- A weight, rounded, its top bit flipped back. -/
def writeBiasedWeight (s : Scalar) : Except SfError (List UInt8) := do
  let weight ← truncateTo u16.lo u16.hi (s.value.map fun q =>
    let weight := roundAway (q * 65535)
    (if 0x8000 < weight then weight - 0x8000 else weight + 0x8000 : Int))
  pure (u16.write weight)

def encodeBoneWeights (w : Four Scalar) : LayoutType → Except SfError (List UInt8)
  | .color => writeFour (i8.writeNorm 127 0) w.v0 w.v1 w.v2 w.v3
  | .ubyte4Norm => writeFour (u8.writeNorm 255 0) w.v0 w.v1 w.v2 w.v3
  | .short4 => writeFour writeBiasedWeight w.v0 w.v1 w.v2 w.v3
  | .short4Norm => writeFour (i16.writeNorm 32767 0) w.v0 w.v1 w.v2 w.v3
  | _ => .error .unsupportedVersion

/-- An integer cast to the type and written. -/
def IntType.store (t : IntType) (v : Int) : Except SfError (List UInt8) := .ok (t.write v)

def encodeBoneIndices (w : Four Int) : LayoutType → Except SfError (List UInt8)
  | .ubyte4 | .byte4E | .byte4 => writeFour u8.store w.v0 w.v1 w.v2 w.v3
  | .ushort2 => writeTwo u16.store w.v0 w.v1
  | .ushort4 => writeFour u16.store w.v0 w.v1 w.v2 w.v3
  | _ => .error .unsupportedVersion

/-- The three components of a normal and what is written beside them. -/
def encodeNormal (n : Vec3) (w : Int) : LayoutType → Except SfError (List UInt8)
  | .float3 => writeXyz storeF32 n
  | .float4 => do
    let xyz ← writeXyz storeF32 n
    pure (xyz ++ writeF32 (.exact w))
  | .color | .ubyte4 | .ubyte4Norm | .byte4E => do
    let xyz ← writeByteNormXyz n
    pure (xyz ++ u8.write w)
  | .byte4 => do
    let zyx ← writeSbyteNormZyx n
    pure (u8.write w ++ zyx)
  | .short4Norm => do
    let xyz ← writeShortNormXyz n
    pure (xyz ++ i16.write w)
  | .half4 => do
    let xyz ← writeUshortNormXyz n
    pure (xyz ++ i16.write w)
  | .ushort4 => do
    let xyz ← writeShortNormXyzAc6 n
    -- Unlike its siblings, this one scales the fourth component, which is read unscaled.
    let w ← writeShortNormAc6 (.exact w)
    pure (xyz ++ w)
  | _ => .error .unsupportedVersion

/-- `roundf(uv.x * uv_factor)`, cast and written. -/
def writeScaled (factor : ℚ) (s : Scalar) : Except SfError (List UInt8) :=
  i16.writeRounded (s.value.map fun q => q * factor)

def writeUv (write : Scalar → Except SfError (List UInt8)) (uv : Vec2) : Except SfError (List UInt8) :=
  writeTwo write uv.x uv.y

/-- Two pairs, the second of which is fetched after the first is written. -/
def writeUvs (v : DecodedVertex) (uvIdx : Nat) (write : Scalar → Except SfError (List UInt8)) (uv : Vec2) :
    Except SfError (List UInt8 × Nat) := do
  let first ← writeUv write uv
  let uv' ← v.uvAt (uvIdx + 1)
  let second ← writeUv write uv'
  pure (first ++ second, uvIdx + 2)

def encodeUv (v : DecodedVertex) (factor : ℚ) (uvIdx : Nat) (type : LayoutType) :
    Except SfError (List UInt8 × Nat) := do
  let uv ← v.uvAt uvIdx
  match type with
  | .float2 => do
    let xy ← writeUv storeF32 uv
    pure (xy, uvIdx + 1)
  | .float3 => do
    let xy ← writeUv storeF32 uv
    pure (xy ++ writeF32 .zero, uvIdx + 1)
  | .float4 => writeUvs v uvIdx storeF32 uv
  | .ubyte4Norm => writeUvs v uvIdx (u8.writeNorm 255 0) uv
  | .color | .ubyte4 | .byte4 | .short2 | .half2 => do
    let xy ← writeUv (writeScaled factor) uv
    pure (xy, uvIdx + 1)
  | .short4 | .half4 => writeUvs v uvIdx (writeScaled factor) uv
  | _ => .error .unsupportedVersion

def encodeTangent (t : Vec4) : LayoutType → Except SfError (List UInt8)
  | .float4 => writeXyzw storeF32 t
  | .color | .ubyte4 | .ubyte4Norm | .byte4E => writeByteNormXyzw t
  | .byte4Norm => writeSbyteNormWzyx t
  | .short4Norm => writeShortNormXyzw t
  | _ => .error .unsupportedVersion

def encodeBitangent (b : Vec3) : LayoutType → Except SfError (List UInt8)
  | .color | .ubyte4 | .ubyte4Norm | .byte4E => writeByteNormXyzw ⟨b.x, b.y, b.z, .zero⟩
  | _ => .error .unsupportedVersion

def encodeColor (c : VertexColor) : LayoutType → Except SfError (List UInt8)
  | .float4 => writeFloatRgba c
  | .color | .ubyte4Norm => writeByteRgba c
  | _ => .error .unsupportedVersion

/-- What a round of `sfi_flver2_vertex_encode_one` stores, and the counters after it. -/
def encodeMember (v : DecodedVertex) (ctx : VertexContext) (member : LayoutMember) (uvIdx colorIdx : Nat) :
    Except SfError (List UInt8 × Nat × Nat) :=
  match member.semantic with
  | .position => do
    let bs ← encodePosition v.position member.type
    pure (bs, uvIdx, colorIdx)
  | .boneWeights => do
    let bs ← encodeBoneWeights v.boneWeights member.type
    pure (bs, uvIdx, colorIdx)
  | .boneIndices => do
    let bs ← encodeBoneIndices v.boneIndices member.type
    pure (bs, uvIdx, colorIdx)
  | .normal => do
    let bs ← encodeNormal v.normal v.normalW member.type
    pure (bs, uvIdx, colorIdx)
  | .uv => do
    let (bs, uvIdx') ← encodeUv v ctx.uvFactor uvIdx member.type
    pure (bs, uvIdx', colorIdx)
  | .tangent => do
    let bs ← encodeTangent v.tangent member.type
    pure (bs, uvIdx, colorIdx)
  | .bitangent => do
    let bs ← encodeBitangent v.bitangent member.type
    pure (bs, uvIdx, colorIdx)
  | .vertexColor => do
    let color ← v.colorAt colorIdx
    let bs ← encodeColor color member.type
    pure (bs, uvIdx, colorIdx + 1)
  | .other _ => .error .unsupportedVersion

/-- The stores of one member into the vertex bytes. -/
def storeAt (mem : List UInt8) (p : Int) (bs : List UInt8) : Except SfError (List UInt8) :=
  if 0 ≤ p ∧ p.toNat + bs.length ≤ mem.length then
    .ok (overwrite mem p.toNat bs)
  else .error .undefinedBehaviour

/-- The counters and the vertex bytes of `sfi_flver2_vertex_encode_one`. -/
structure Encoding where
  uvIdx : Nat
  colorIdx : Nat
  bytes : List UInt8

/-- One round of `sfi_flver2_vertex_encode_one`. -/
def vertexEncodeMember (v : DecodedVertex) (ctx : VertexContext) (s : Encoding) (member : LayoutMember) :
    Except SfError Encoding :=
  if member.Special then .ok s
  else do
    let (bs, uvIdx, colorIdx) ← encodeMember v ctx member s.uvIdx s.colorIdx
    let bytes ← storeAt s.bytes member.structOffset bs
    pure { uvIdx, colorIdx, bytes }

/-- `sfi_flver2_vertex_encode_one`, into these vertex bytes. -/
def vertexEncodeOne (layout : BufferLayout) (v : DecodedVertex) (ctx : VertexContext) (mem : List UInt8) :
    Except SfError (List UInt8) := do
  let s ← layout.members.foldlM (vertexEncodeMember v ctx) ⟨0, 0, mem⟩
  pure s.bytes

end SoulsFormats.Flver
