import SoulsFormats.Core.Tables
import SoulsFormats.Misc.MqbBuffers

set_option autoImplicit false

/-! # MQB cutscenes

The model of `mqb.c`. A cut's events stand one after the other, and its timelines name them by their offsets in
the file, so that the reader first decodes the events and then looks up every name. An event is an object with
an address; for one that was read the model takes the offset that it was decoded at. -/

namespace SoulsFormats

open Bytes Fallible

/-- `sf_mqb_version_t`. -/
inductive MqbVersion where
  | darkSouls2 | darkSouls2Scholar | bloodborne | darkSouls3
deriving DecidableEq, Repr

def MqbVersion.code : MqbVersion → UInt32
  | darkSouls2 => 0x94
  | darkSouls2Scholar => 0xCA
  | bloodborne => 0xCB
  | darkSouls3 => 0xCC

def MqbVersion.ofCode (c : UInt32) : Option MqbVersion :=
  [darkSouls2, darkSouls2Scholar, bloodborne, darkSouls3].find? fun v => v.code = c

/-- `mqb_header_size`. -/
def mqbHeaderSize : MqbVersion → Int32
  | .darkSouls2 => 0x14
  | .darkSouls2Scholar => 0x28
  | .bloodborne => 0x20
  | .darkSouls3 => 0x24

/-- `sf_mqb_param_type_t`. -/
inductive MqbParamType where
  | bool | sbyte | byte | short | int | uint | float | string | custom | color | intColor | vector
deriving DecidableEq, Repr

def MqbParamType.code : MqbParamType → UInt32
  | bool => 1
  | sbyte => 2
  | byte => 3
  | short => 4
  | int => 6
  | uint => 7
  | float => 8
  | string => 10
  | custom => 11
  | color => 13
  | intColor => 17
  | vector => 18

def MqbParamType.ofCode (c : UInt32) : Option MqbParamType :=
  [bool, sbyte, byte, short, int, uint, float, string, custom, color, intColor, vector].find? fun t => t.code = c

/-- `mqb_value_t` with the type that says which member holds. Floats are their bits. -/
inductive MqbValue where
  | bool (v : Bool)
  | sbyte (v : Int8)
  | byte (v : UInt8)
  | short (v : Int16)
  | int (v : Int32)
  | uint (v : UInt32)
  | float (v : UInt32)
  | string (v : List UInt8)
  | custom (bytes : List UInt8)
  | color (r g b a : UInt8)
  | intColor (c0 c1 c2 c3 : Int32)
  | vector (x y z w : UInt32)
deriving DecidableEq, Repr

/-- `sf_mqb_point`. Its value is the first word of the union. -/
structure MqbPoint where
  type : UInt32
  value : UInt32
  unk08 : Int32
  unk10 : UInt32
  unk14 : UInt32
deriving DecidableEq, Repr

/-- `sf_mqb_sequence`. -/
structure MqbSequence where
  valueType : UInt32
  pointType : Int32
  valueIndex : Int32
  points : List MqbPoint
deriving DecidableEq, Repr

/-- `sf_mqb_parameter`. -/
structure MqbParameter where
  name : List UInt8
  memberCount : Int32
  value : MqbValue
  sequences : List MqbSequence
deriving DecidableEq, Repr

/-- `sf_mqb_transform_t`. -/
structure MqbTransform where
  frame : UInt32
  translation : Vec3
  unk10 : Vec3
  unk1c : Vec3
  rotation : Vec3
  unk34 : Vec3
  unk40 : Vec3
  scale : Vec3
  unk58 : Vec3
  unk64 : Vec3
deriving DecidableEq, Repr

/-- `sf_mqb_event`. -/
structure MqbEvent where
  id : Int32
  resourceIndex : Int32
  unk08 : Int32
  startFrame : Int32
  duration : Int32
  unk14 : Int32
  unk18 : Int32
  unk1c : Int32
  unk20 : Int32
  unk28 : Int32
  parameters : List MqbParameter
  transforms : List MqbTransform
deriving DecidableEq, Repr

/-- A pointer to a `sf_mqb_event_t`. -/
structure MqbEventRef where
  address : Nat
  event : MqbEvent
deriving DecidableEq, Repr

/-- `sf_mqb_timeline`. -/
structure MqbTimeline where
  unk10 : Int32
  events : List MqbEventRef
  parameters : List MqbParameter
deriving DecidableEq, Repr

/-- `sf_mqb_cut`. -/
structure MqbCut where
  name : List UInt8
  unk44 : Int32
  duration : Int32
  timelines : List MqbTimeline
deriving DecidableEq, Repr

/-- `sf_mqb_resource`. -/
structure MqbResource where
  name : List UInt8
  parentIndex : Int32
  unk48 : Int32
  path : Option (List UInt8)
  parameters : List MqbParameter
deriving DecidableEq, Repr

/-- `sf_mqb`. -/
structure Mqb where
  version : MqbVersion
  bigEndian : Bool
  name : List UInt8
  framerate : UInt32
  resourceDirectory : List UInt8
  resources : List MqbResource
  cuts : List MqbCut
deriving DecidableEq, Repr

/-- The events that one meets on a walk over a cut, as `free_cut` and `write_cut_events` walk. -/
def MqbCut.walk (c : MqbCut) : List MqbEventRef := c.timelines.flatMap (·.events)

/-- `cut_event_count`. -/
def cutEventCount (c : MqbCut) : Nat := (c.timelines.map fun t => t.events.length).sum

/-! ## Reading -/

section Reading

open Rdr

/-- `read_point`. -/
def mqbReadPoint (type : UInt32) (pointType : Int32) : RdrM MqbPoint := do
  alloc
  let value ← (if type = MqbParamType.byte.code then do
      let v ← readU8
      let pad ← readU16
      check (pad = 0) .badMagic
      let pad ← readU8
      check (pad = 0) .badMagic
      pure v.toUInt32
    else if type = MqbParamType.float.code then readF32
    else if type = MqbParamType.uint.code then readU32
    else fail .unsupportedVersion)
  assertI32 0
  let unk08 ← readI32
  assertI32 0
  let unk10 ← given (pointType = 2) 0 readF32
  let unk14 ← given (pointType = 2) 0 readF32
  pure ⟨type, value, unk08, unk10, unk14⟩

/-- The size of a point with this type. -/
def mqbPointSize (pointType : Int32) : Int32 := if pointType = 0 ∨ pointType = 1 then 0x10 else 0x18

/-- `read_sequence`. -/
def mqbReadSequence (parentValueOffset parentValueEndOffset : Nat) : RdrM MqbSequence := do
  alloc
  assertI32 0x1C
  let pointCount ← readI32
  let valueType ← readU32
  let pointType ← readI32
  check (pointType = 0 ∨ pointType = 1 ∨ pointType = 2) .badMagic
  let pointSize ← readI32
  check (pointSize = mqbPointSize pointType) .badMagic
  let pointsOffset ← readI32
  let valueOffset ← readI32
  check (parentValueOffset ≤ sizeOfInt32 valueOffset ∧ sizeOfInt32 valueOffset < parentValueEndOffset) .badMagic
  let valueIndex := valueOffset.toInt - (Int32.ofNat parentValueOffset).toInt
  check (-2 ^ 31 ≤ valueIndex ∧ valueIndex < 2 ^ 31) .undefinedBehaviour
  let old ← peek Rdr.pos
  jump (sizeOfInt32 pointsOffset)
  let points ← readGrown 4 (fun _ room => do
    let p ← mqbReadPoint valueType pointType
    room
    pure p) pointCount.toInt.toNat 0 0
  jump old
  pure ⟨valueType, pointType, Int32.ofInt valueIndex, points⟩

/-- What `read_parameter` has after its first `switch`: a value, or the length of a value to come. -/
inductive MqbHead where
  | whole (v : MqbValue)
  | string (len : Int32)
  | custom (len : Int32)
  | color (len : Int32)
  | intColor (len : Int32)
  | vector (len : Int32)
deriving DecidableEq, Repr

/-- The first `switch` of `read_parameter`. -/
def mqbReadHead : MqbParamType → RdrM MqbHead
  | .bool => do
    let v ← readU8
    pure (.whole (.bool (v != 0)))
  | .sbyte => do
    let v ← readU8
    pure (.whole (.sbyte v.toInt8))
  | .byte => do
    let v ← readU8
    pure (.whole (.byte v))
  | .short => do
    let v ← readU16
    pure (.whole (.short v.toInt16))
  | .int => do
    let v ← readI32
    pure (.whole (.int v))
  | .uint => do
    let v ← readU32
    pure (.whole (.uint v))
  | .float => do
    let v ← readF32
    pure (.whole (.float v))
  | .string => do
    let len ← readI32
    pure (.string len)
  | .custom => do
    let len ← readI32
    pure (.custom len)
  | .color => do
    let len ← readI32
    pure (.color len)
  | .intColor => do
    let len ← readI32
    pure (.intColor len)
  | .vector => do
    let len ← readI32
    pure (.vector len)

/-- The padding after a value of less than four bytes. -/
def mqbReadValuePad (type : MqbParamType) : RdrM Unit := do
  given (type = .bool ∨ type = .sbyte ∨ type = .byte) () (do
    let z8 ← readU8
    check (z8 = 0) .badMagic)
  given (type = .bool ∨ type = .sbyte ∨ type = .byte ∨ type = .short) () (do
    let z16 ← readU16
    check (z16 = 0) .badMagic)

/-- The second `switch` of `read_parameter`: the value, and where it begins and ends. -/
def mqbReadTail (memberCount : Int32) (valueOffset valueEndOffset : Nat) : MqbHead → RdrM (MqbValue × Nat × Nat)
  | .whole v => pure (v, valueOffset, valueEndOffset)
  | .string len => do
    check (0 < len.toInt ∧ len.toInt % 16 = 0) .badMagic
    let s ← readFixstrW len.toInt.toNat
    pure (.string s, valueOffset, valueEndOffset)
  | .custom len => do
    check (0 ≤ len.toInt ∧ len.toInt % 4 = 0) .badMagic
    let bytes ← given (0 < len.toInt) [] (do
      alloc
      readExact len.toInt.toNat)
    pure (.custom bytes, valueOffset, valueEndOffset)
  | .color len => do
    check (memberCount = 3 ∧ len = 4) .badMagic
    let start ← peek Rdr.pos
    let r ← readU8
    let g ← readU8
    let b ← readU8
    let z ← readU8
    check (z = 0) .badMagic
    let stop ← peek Rdr.pos
    pure (.color r g b 255, start, stop - 1)
  | .intColor len => do
    check (memberCount = 4 ∧ len = 20) .badMagic
    let start ← peek Rdr.pos
    let c0 ← readI32
    let c1 ← readI32
    let c2 ← readI32
    let c3 ← readI32
    let stop ← peek Rdr.pos
    assertI32 0
    pure (.intColor c0 c1 c2 c3, start, stop)
  | .vector len => do
    -- the product and the sum are made in an `int`
    check (-2 ^ 31 ≤ memberCount.toInt * 4 ∧ memberCount.toInt * 4 + 4 < 2 ^ 31) .undefinedBehaviour
    check (len.toInt = memberCount.toInt * 4 + 4) .badMagic
    let start ← peek Rdr.pos
    let x ← readF32
    let y ← given (1 < memberCount.toInt) 0 readF32
    let z ← given (2 < memberCount.toInt) 0 readF32
    let w ← given (3 < memberCount.toInt) 0 readF32
    let stop ← peek Rdr.pos
    assertI32 0
    pure (.vector x y z w, start, stop)

/-- `read_parameter`. -/
def mqbReadParameter : RdrM MqbParameter := do
  alloc
  let name ← readFixstrW 0x40
  let type ← readU32
  let memberCount ← readI32
  let valueOffset ← peek Rdr.pos
  match MqbParamType.ofCode type with
  | none => fail .unsupportedVersion
  | some type => do
    let head ← mqbReadHead type
    let valueEndOffset ← peek Rdr.pos
    mqbReadValuePad type
    assertI32 0
    let sequencesOffset ← readI32
    let sequenceCount ← readI32
    assertI32 0
    assertI32 0
    let (value, start, stop) ← mqbReadTail memberCount valueOffset valueEndOffset head
    let sequences ← given (0 < sequenceCount.toInt) [] (do
      let old ← peek Rdr.pos
      jump (sizeOfInt32 sequencesOffset)
      let sequences ← readGrown 4 (fun _ room => do
        let s ← mqbReadSequence start stop
        room
        pure s) sequenceCount.toInt.toNat 0 0
      jump old
      pure sequences)
    pure ⟨name, memberCount, value, sequences⟩

/-- The loop over parameters, which four readers share. -/
def mqbReadParameters (count : Int32) : RdrM (List MqbParameter) :=
  readGrown 4 (fun _ room => do
    let p ← mqbReadParameter
    room
    pure p) count.toInt.toNat 0 0

def mqbReadVec3 : RdrM Vec3 := do
  let x ← readF32
  let y ← readF32
  let z ← readF32
  pure ⟨x, y, z⟩

/-- `read_transform`. -/
def mqbReadTransform : RdrM MqbTransform := do
  let frame ← readF32
  let translation ← mqbReadVec3
  let unk10 ← mqbReadVec3
  let unk1c ← mqbReadVec3
  let rotation ← mqbReadVec3
  let unk34 ← mqbReadVec3
  let unk40 ← mqbReadVec3
  let scale ← mqbReadVec3
  let unk58 ← mqbReadVec3
  let unk64 ← mqbReadVec3
  pure ⟨frame, translation, unk10, unk1c, rotation, unk34, unk40, scale, unk58, unk64⟩

/-- `read_event_at`. -/
def mqbReadEventAt : RdrM MqbEvent := do
  alloc
  let id ← readI32
  let resourceIndex ← readI32
  let unk08 ← readI32
  let startFrame ← readI32
  let duration ← readI32
  let unk14 ← readI32
  let unk18 ← readI32
  let unk1c ← readI32
  let unk20 ← readI32
  check (unk20 = 0 ∨ unk20 = 1) .badMagic
  let paramCount ← readI32
  let unk28 ← readI32
  assertI32 0
  let parameters ← mqbReadParameters paramCount
  assertI32 0
  let transformCount ← readI32
  let _ ← readEach (assertI32 0) 6
  let transforms ← readGrown 8 (fun _ room => do
    room
    mqbReadTransform) transformCount.toInt.toNat 0 0
  pure ⟨id, resourceIndex, unk08, startFrame, duration, unk14, unk18, unk1c, unk20, unk28, parameters, transforms⟩

/-- `find_event`. With a negative total there is no table, and more entries in it than one can count. -/
def findEvent (total : Int32) (events : List MqbEventRef) (off : Nat) : RdrM MqbEventRef := do
  check (0 ≤ total.toInt) .undefinedBehaviour
  match events.find? fun e => e.address = off with
  | some e => pure e
  | none => fail .badMagic

/-- `read_timeline_at`. -/
def mqbReadTimelineAt (total : Int32) (known : List MqbEventRef) (version : MqbVersion) : RdrM MqbTimeline := do
  alloc
  let eventOffsetsOffset ← readVar
  let eventCount ← readI32
  given (version = .darkSouls2Scholar) () (assertI32 0)
  let parameterOffset ← readVar
  let parameterCount ← readI32
  let unk10 ← readI32
  let old ← peek Rdr.pos
  jump eventOffsetsOffset
  let events ← readGrown 4 (fun _ room => do
    let off ← readVar
    let e ← findEvent total known off
    room
    pure e) eventCount.toInt.toNat 0 0
  jump parameterOffset
  let parameters ← mqbReadParameters parameterCount
  jump old
  pure ⟨unk10, events, parameters⟩

/-- `read_resource`, after `new_resource`; the paths are read later. -/
def mqbReadResource (index : Nat) (room : RdrM Unit) : RdrM MqbResource := do
  room
  alloc
  alloc
  let name ← readFixstrW 0x40
  let parentIndex ← readI32
  let idx ← readI32
  check (idx.toInt = index) .badMagic
  let unk48 ← readI32
  let parameterCount ← readI32
  let parameters ← mqbReadParameters parameterCount
  pure ⟨name, parentIndex, unk48, none, parameters⟩

/-- An event and where it is decoded. -/
def mqbReadEvent : RdrM MqbEventRef := do
  let offset ← peek Rdr.pos
  let e ← mqbReadEventAt
  pure ⟨offset, e⟩

/-- `read_cut`, after `new_cut`. The events that it decodes are given as well: the cut has only those that its
    timelines name. -/
def mqbReadCut (version : MqbVersion) (room : RdrM Unit) : RdrM (MqbCut × List MqbEventRef) := do
  room
  alloc
  alloc
  let name ← readFixstrW 0x40
  let eventCount ← readI32
  let unk44 ← readI32
  let duration ← readI32
  assertI32 0
  let timelineCount ← readI32
  given (version = .darkSouls2Scholar) () (assertI32 0)
  let timelinesOffset ← readVar
  given (version ≠ .darkSouls2Scholar) () (assertI64 0)
  given (0 < eventCount.toInt) () alloc
  let events ← readEach mqbReadEvent eventCount.toInt.toNat
  let old ← peek Rdr.pos
  jump timelinesOffset
  let timelines ← readGrown 4 (fun _ room => do
    let t ← mqbReadTimelineAt eventCount events version
    room
    pure t) timelineCount.toInt.toNat 0 0
  jump old
  pure (⟨name, unk44, duration, timelines⟩, events)

/-- The offsets of the paths, the directory and the paths. An offset of 0 stands for no path. -/
def mqbReadPaths (count : Nat) : RdrM (List UInt8 × List (Option (List UInt8))) := do
  given (0 < count) () alloc
  let offsets ← readEach readVar count
  let pos ← peek Rdr.pos
  let directory ← readUtf16ZAt pos
  let paths ← offsets.mapM fun off => given (off ≠ 0) none (do
    let s ← readUtf16ZAt off
    pure (some s))
  pure (directory, paths)

/-- What follows the version in the header. -/
def mqbReadExtra (version : MqbVersion) : RdrM Unit := do
  given (version = .darkSouls2Scholar) () (do
    let _ ← readEach (assertI32 0) 4)
  given (version ≠ .darkSouls2Scholar ∧ MqbVersion.bloodborne.code ≤ version.code) () (do
    assertI32 1
    assertI32 0
    assertI32 0
    given (MqbVersion.darkSouls3.code ≤ version.code) () (assertI32 0))

/-- What `sf_mqb_read_from_memory` does after the magic. -/
def mqbRead : RdrM (Mqb × List (List MqbEventRef)) := do
  let endian ← readU8
  check (endian = 0 ∨ endian = 0xFF) .badMagic
  update fun r => { r with be := endian = 0xFF }
  let z ← readU8
  check (z = 0) .badMagic
  let longFormat ← readU8
  check (longFormat = 0 ∨ longFormat = 0xFF) .badMagic
  let z ← readU8
  check (z = 0) .badMagic
  let versionU ← readU32
  let headerSize ← readI32
  match MqbVersion.ofCode versionU with
  | none => fail .unsupportedVersion
  | some version => do
    check (headerSize = mqbHeaderSize version) .badMagic
    check (version = .darkSouls2Scholar ↔ longFormat = 0xFF) .badMagic
    update fun r => { r with var64 := version = .darkSouls2Scholar }
    -- `sf_mqb_create`
    alloc
    alloc
    alloc
    let resourcePathsOffset ← readVar
    mqbReadExtra version
    let name ← readFixstrW 0x40
    let framerate ← readF32
    let resourceCount ← readI32
    let cutCount ← readI32
    let _ ← readI32
    let _ ← readEach (assertI32 0) 4
    let resources ← readGrown 4 mqbReadResource resourceCount.toInt.toNat 0 0
    let cuts ← readGrown 4 (fun _ => mqbReadCut version) cutCount.toInt.toNat 0 0
    jump resourcePathsOffset
    let (directory, paths) ← mqbReadPaths resourceCount.toInt.toNat
    let be ← peek Rdr.be
    pure (⟨version, be, name, framerate, directory, resources.zipWith (fun r p => { r with path := p }) paths,
      cuts.map Prod.fst⟩, cuts.map Prod.snd)

/-- `sf_mqb_read_from_memory`; the events that are decoded for every cut are given as well. -/
def mqbReadFromMemory (bytes : List UInt8) (heap : Heap) : Except SfError (Mqb × List (List MqbEventRef)) :=
  if bytes.take 4 = cstr "MQB " then (mqbRead ⟨bytes, 4, false, false, heap⟩).1 else .error .badMagic

end Reading

end SoulsFormats
