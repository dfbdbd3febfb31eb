import Mathlib.Data.List.TakeDrop
import SoulsFormats.Core.Tables

set_option autoImplicit false

/-! # BTL point lights

The model of `btl.c`. The reader takes the width of the offsets from the size that the file states for a
light, and whether a light has the last eight fields from the version of the file. -/

namespace SoulsFormats

open Bytes Fallible

/-- A C array of `n` bytes. -/
abbrev FixedBytes (n : Nat) := { bs : List UInt8 // bs.length = n }

/-- The array that holds what was read. -/
def FixedBytes.ofList (n : Nat) (bs : List UInt8) : FixedBytes n := ⟨bs.takeD n 0, List.takeD_length n bs 0⟩

theorem FixedBytes.ofList_val {n : Nat} (v : FixedBytes n) : FixedBytes.ofList n v.1 = v := by
  obtain ⟨bs, rfl⟩ := v
  exact Subtype.ext ((List.takeD_eq_take 0 (Nat.le_refl _)).trans (List.take_length ..))

/-- `sf_color_t`. -/
structure SfColor where
  a : UInt8
  r : UInt8
  g : UInt8
  b : UInt8
deriving DecidableEq, Repr

/-- `sf_btl_light_type_t`. -/
inductive BtlLightType where
  | point | spot | directional
deriving DecidableEq, Repr

def BtlLightType.toUInt32 : BtlLightType → UInt32
  | .point => 0
  | .spot => 1
  | .directional => 2

def BtlLightType.ofUInt32 (v : UInt32) : Option BtlLightType :=
  if v = 0 then some .point else if v = 1 then some .spot else if v = 2 then some .directional else none

@[simp] theorem BtlLightType.ofUInt32_toUInt32 (t : BtlLightType) : BtlLightType.ofUInt32 t.toUInt32 = some t := by
  cases t <;> rfl

/-! ## Lights

`sf_btl_light`, in the order of the file and in pieces between the words that are always zero. A float is given
by its bits. -/

structure BtlLightColors where
  type : BtlLightType
  unk1c : Bool
  diffuseColor : SfColor
  diffusePower : UInt32
  specularColor : SfColor
  castShadows : Bool
  specularPower : UInt32
  coneAngle : UInt32
  unk30 : UInt32
  unk34 : UInt32
  position : Vec3
  rotation : Vec3
  unk50 : Int32
  unk54 : UInt32
  radius : UInt32
  unk5c : Int32
deriving DecidableEq

structure BtlLightFlicker where
  unk64 : FixedBytes 4
  unk68 : UInt32
  shadowColor : SfColor
  unk70 : UInt32
  flickerIntervalMin : UInt32
  flickerIntervalMax : UInt32
  flickerBrightnessMult : UInt32
  unk80 : Int32
  unk84 : FixedBytes 4
  unk88 : UInt32
deriving DecidableEq

structure BtlLightClip where
  unk90 : UInt32
  unk98 : UInt32
  nearClip : UInt32
  unkA0 : FixedBytes 4
  sharpness : UInt32
  unkAc : UInt32
deriving DecidableEq

structure BtlLightWidth where
  width : UInt32
  unkBc : UInt32
  unkC0 : FixedBytes 4
  unkC4 : UInt32
deriving DecidableEq

/-- The fields from version 16 on; before, they are zero. -/
structure BtlLightTail where
  unkC8 : UInt32 := 0
  unkCc : UInt32 := 0
  unkD0 : UInt32 := 0
  unkD4 : UInt32 := 0
  unkD8 : UInt32 := 0
  unkDc : Int32 := 0
  unkE0 : UInt32 := 0
  unkE4 : Int32 := 0
deriving DecidableEq

/-- `sf_btl_light`. -/
structure BtlLight extends BtlLightColors, BtlLightFlicker, BtlLightClip, BtlLightWidth, BtlLightTail where
  unk00 : FixedBytes 16
  name : List UInt8
deriving DecidableEq

/-- `sf_btl`. -/
structure Btl where
  version : Int32
  longOffsets : Bool
  lights : List BtlLight
deriving DecidableEq

/-- The versions that are known. -/
def btlVersions : List Int32 := [1, 2, 5, 6, 16, 18]

/-! ## Reading -/

section Reading

open BinaryReader

/-- `btl_read_rgb`; the colour is opaque. -/
def btlReadRgb : ReadM SfColor := do
  let r ← readU8
  let g ← readU8
  let b ← readU8
  pure ⟨255, r, g, b⟩

/-- `sf_binary_reader_read_rgba`. -/
def readRgba : ReadM SfColor := do
  let r ← readU8
  let g ← readU8
  let b ← readU8
  let a ← readU8
  pure ⟨a, r, g, b⟩

def readFixedBytes (n : Nat) : ReadM (FixedBytes n) := do
  let bs ← readBytes n
  pure (FixedBytes.ofList n bs)

def btlReadType : ReadM BtlLightType := do
  let typeRaw ← readU32
  match BtlLightType.ofUInt32 typeRaw with
  | some type => pure type
  | none => fail .badMagic

def btlReadColors : ReadM BtlLightColors := do
  let type ← btlReadType
  let unk1c ← readBool
  let diffuseColor ← btlReadRgb
  let diffusePower ← readF32
  let specularColor ← btlReadRgb
  let castShadows ← readBool
  let specularPower ← readF32
  let coneAngle ← readF32
  let unk30 ← readF32
  let unk34 ← readF32
  let position ← readVec3
  let rotation ← readVec3
  let unk50 ← readI32
  let unk54 ← readF32
  let radius ← readF32
  let unk5c ← readI32
  pure ⟨type, unk1c, diffuseColor, diffusePower, specularColor, castShadows, specularPower, coneAngle, unk30, unk34,
    position, rotation, unk50, unk54, radius, unk5c⟩

def btlReadFlicker : ReadM BtlLightFlicker := do
  let unk64 ← readFixedBytes 4
  let unk68 ← readF32
  let shadowColor ← readRgba
  let unk70 ← readF32
  let flickerIntervalMin ← readF32
  let flickerIntervalMax ← readF32
  let flickerBrightnessMult ← readF32
  let unk80 ← readI32
  let unk84 ← readFixedBytes 4
  let unk88 ← readF32
  pure ⟨unk64, unk68, shadowColor, unk70, flickerIntervalMin, flickerIntervalMax, flickerBrightnessMult, unk80, unk84,
    unk88⟩

def btlReadClip : ReadM BtlLightClip := do
  let unk90 ← readF32
  let _ ← assertI32 [0]
  let unk98 ← readF32
  let nearClip ← readF32
  let unkA0 ← readFixedBytes 4
  let sharpness ← readF32
  let _ ← assertI32 [0]
  let unkAc ← readF32
  pure ⟨unk90, unk98, nearClip, unkA0, sharpness, unkAc⟩

def btlReadWidth : ReadM BtlLightWidth := do
  let width ← readF32
  let unkBc ← readF32
  let unkC0 ← readFixedBytes 4
  let unkC4 ← readF32
  pure ⟨width, unkBc, unkC0, unkC4⟩

def btlReadTail : ReadM BtlLightTail := do
  let unkC8 ← readF32
  let unkCc ← readF32
  let unkD0 ← readF32
  let unkD4 ← readF32
  let unkD8 ← readF32
  let unkDc ← readI32
  let unkE0 ← readF32
  let unkE4 ← readI32
  pure ⟨unkC8, unkCc, unkD0, unkD4, unkD8, unkDc, unkE0, unkE4⟩

/-- A light that has no name yet, and where its name is. -/
def btlReadLight (version : Int32) : ReadM (BtlLight × Int64) := do
  let unk00 ← readFixedBytes 16
  let nameOffset ← readVarint
  let colors ← btlReadColors
  let _ ← assertI32 [0]
  let flicker ← btlReadFlicker
  let _ ← assertI32 [0]
  let clip ← btlReadClip
  let _ ← assertVarint [0]
  let width ← btlReadWidth
  let tail ← given (16 ≤ version.toInt) {} btlReadTail
  pure (⟨colors, flicker, clip, width, tail, unk00, []⟩, nameOffset)

/-- The bytes of a name: up to a unit that is zero, or up to where no whole unit follows. -/
def btlCutName : List UInt8 → List UInt8
  | a :: b :: rest => if a = 0 ∧ b = 0 then [] else a :: b :: btlCutName rest
  | _ => []

/-- The second pass, over the section of the names. -/
def btlReadNames (os : Win32) (namesBuf : List UInt8) : List (BtlLight × Int64) → ReadM (List BtlLight)
  | [] => pure []
  | (light, off) :: rest => do
    check (0 ≤ off.toInt ∧ off.toInt ≤ namesBuf.length) .outOfRange
    let utf8 ← onHeap (utf16leToUtf8 os (btlCutName (namesBuf.drop off.toInt.toNat)))
    let lights ← btlReadNames os namesBuf rest
    pure ({ light with name := cText utf8 } :: lights)

/-- The lights and the offsets of their names, if there is a light. -/
def btlAllocLights (lightCount : Nat) : ReadM Unit :=
  given (0 < lightCount) () do
    let _ ← onHeap Heap.alloc
    let _ ← onHeap Heap.alloc
    pure ()

/-- Any other version is reported as one that is not supported. -/
def btlReadVersion : ReadM Int32 := do
  let version ← attempt (assertI32 btlVersions)
  match version with
  | .ok v => pure v
  | .error _ => fail .unsupportedVersion

/-- What comes after the header. -/
def btlReadBody (os : Win32) (version : Int32) (longOffsets : Bool) (lightCount namesLength : Nat) : ReadM Btl := do
  let namesBuf ← given (0 < namesLength) [] do
    let _ ← onHeap Heap.alloc
    readBytes namesLength
  let _ ← onHeap Heap.alloc
  btlAllocLights lightCount
  let lights ← readEach (btlReadLight version) lightCount
  given (0 < lightCount) () (onHeap Heap.allocBoth)
  let lights ← btlReadNames os namesBuf lights
  -- the pool of the names
  given (0 < lightCount) () do
    let _ ← onHeap Heap.alloc
    pure ()
  pure ⟨version, longOffsets, lights⟩

/-- What `sf_btl_read_from_memory` does with its reader. -/
def btlRead (os : Win32) : ReadM Btl := do
  let _ ← assertI32 [2]
  let version ← btlReadVersion
  let lightCount ← readI32
  let namesLength ← readI32
  let _ ← assertI32 [0]
  let lightSize ← assertI32 [0xC0, 0xC8, 0xE8]
  assertPattern 0x24 0
  setVarintLong (lightSize ≠ 0xC0)
  check (0 ≤ lightCount.toInt ∧ 0 ≤ namesLength.toInt) .badMagic
  btlReadBody os version (lightSize ≠ 0xC0) lightCount.toInt.toNat namesLength.toInt.toNat

/-- `sf_btl_read_from_memory`. -/
def btlReadFromMemory (os : Win32) (flexible : Bool) (data : List UInt8) : Fallible Heap SfError Btl :=
  onMemory data false flexible (btlRead os)

end Reading

/-! ## Writing -/

section Writing

open BinaryWriter

/-- `btl_write_rgb`. -/
def btlWriteRgb (c : SfColor) : WriteM Unit := do
  writeU8 c.r
  writeU8 c.g
  writeU8 c.b

/-- `sf_binary_writer_write_rgba`. -/
def writeRgba (c : SfColor) : WriteM Unit := do
  writeU8 c.r
  writeU8 c.g
  writeU8 c.b
  writeU8 c.a

def btlWriteColors (l : BtlLightColors) : WriteM Unit := do
  writeU32 l.type.toUInt32
  writeBool l.unk1c
  btlWriteRgb l.diffuseColor
  writeF32 l.diffusePower
  btlWriteRgb l.specularColor
  writeBool l.castShadows
  writeF32 l.specularPower
  writeF32 l.coneAngle
  writeF32 l.unk30
  writeF32 l.unk34
  writeVec3 l.position
  writeVec3 l.rotation
  writeI32 l.unk50
  writeF32 l.unk54
  writeF32 l.radius
  writeI32 l.unk5c

def btlWriteFlicker (l : BtlLightFlicker) : WriteM Unit := do
  writeBytes l.unk64.1
  writeF32 l.unk68
  writeRgba l.shadowColor
  writeF32 l.unk70
  writeF32 l.flickerIntervalMin
  writeF32 l.flickerIntervalMax
  writeF32 l.flickerBrightnessMult
  writeI32 l.unk80
  writeBytes l.unk84.1
  writeF32 l.unk88

def btlWriteClip (l : BtlLightClip) : WriteM Unit := do
  writeF32 l.unk90
  writeI32 0
  writeF32 l.unk98
  writeF32 l.nearClip
  writeBytes l.unkA0.1
  writeF32 l.sharpness
  writeI32 0
  writeF32 l.unkAc

def btlWriteWidth (l : BtlLightWidth) : WriteM Unit := do
  writeF32 l.width
  writeF32 l.unkBc
  writeBytes l.unkC0.1
  writeF32 l.unkC4

def btlWriteTail (l : BtlLightTail) : WriteM Unit := do
  writeF32 l.unkC8
  writeF32 l.unkCc
  writeF32 l.unkD0
  writeF32 l.unkD4
  writeF32 l.unkD8
  writeI32 l.unkDc
  writeF32 l.unkE0
  writeI32 l.unkE4

def btlWriteLight (version : Int32) (l : BtlLight) (nameOffset : Int64) : WriteM Unit := do
  writeBytes l.unk00.1
  writeVarint nameOffset
  btlWriteColors l.toBtlLightColors
  writeI32 0
  btlWriteFlicker l.toBtlLightFlicker
  writeI32 0
  btlWriteClip l.toBtlLightClip
  writeVarint 0
  btlWriteWidth l.toBtlLightWidth
  given (16 ≤ version.toInt) () (btlWriteTail l.toBtlLightTail)

/-- The zeros behind a name that starts at `nameOffset`. -/
def btlNamePad (nameOffset : Nat) : Nat := if nameOffset % 0x10 = 0 then 0 else 0x10 - nameOffset % 0x10

/-- One name; the value is where it starts in the section. -/
def btlWriteName (os : Win32) (namesStart : Nat) (l : BtlLight) : WriteM Int64 := do
  let pos ← peek position
  writeUtf16 os (some l.name) true
  given ((pos - namesStart) % 0x10 ≠ 0) () (writePattern (btlNamePad (pos - namesStart)) 0)
  pure (Int64.ofNat (pos - namesStart))

/-- The size of a light that the file states. -/
def btlLightSize (b : Btl) : Int32 := if 16 ≤ b.version.toInt then 0xE8 else if b.longOffsets then 0xC8 else 0xC0

/-- What `sf_btl_write_to_buffer` does with its writer. -/
def btlWrite (os : Win32) (b : Btl) : WriteM Unit := do
  setVarintLong b.longOffsets
  writeI32 2
  writeI32 b.version
  writeI32 (Int32.ofNat b.lights.length)
  reserveI32 (cstr "NamesLength")
  writeI32 0
  writeI32 (btlLightSize b)
  writePattern 0x24 0
  let namesStart ← peek position
  given (0 < b.lights.length) () do
    let _ ← onHeap Heap.alloc
    pure ()
  let nameOffsets ← noteEach (btlWriteName os namesStart) b.lights
  let namesEnd ← peek position
  fillI32 (cstr "NamesLength") (Int32.ofNat (namesEnd - namesStart))
  writeEach (fun l => btlWriteLight b.version l.1 l.2) (b.lights.zip nameOffsets)

/-- `sf_btl_write_to_buffer`. -/
def btlWriteToBuffer (os : Win32) (b : Btl) : Fallible Heap SfError (List UInt8) :=
  writeToMemory false (btlWrite os b)

end Writing

end SoulsFormats
