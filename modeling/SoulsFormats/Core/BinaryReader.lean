import SoulsFormats.Core.Encoding
import SoulsFormats.Core.Stream

set_option autoImplicit false

/-! # The binary reader

`sf_binary_reader_t` over a memory stream: the byte order and the width of a varint are part of its
state, `stepIn`/`stepOut` keep a stack of positions, and every `get` is a `read` at an absolute
offset between the two. `BinaryReader.readU16` is `sf_binary_reader_read_u16`, and so on for every
name that differs in no more than its case; the others say what they model. A function that the source writes as a macro instance is here the macro's
body (`defineReadInt`, `defineGet`, `defineReadArrayRaw`, `defineEnumRead`, `defineAssertMulti`)
applied to the instance's arguments. Floats are their bit patterns. -/

namespace SoulsFormats

open Bytes Fallible

/-- The scalar types of the reader and the writer. -/
inductive Scalar where
  | bool | i8 | u8 | i16 | u16 | u32 | i32 | u64 | i64 | f32 | f64 | varint
deriving DecidableEq, Repr

/-- The values of a scalar; those of a float are bit patterns. -/
abbrev Scalar.Value : Scalar → Type
  | bool => Bool
  | i8 => Int8
  | u8 => UInt8
  | i16 => Int16
  | u16 => UInt16
  | u32 => UInt32
  | i32 => Int32
  | u64 => UInt64
  | i64 => Int64
  | f32 => UInt32
  | f64 => UInt64
  | varint => Int64

/-- `sf_binary_reader_t`. `steps` lists the saved positions, the latest first; `heap` is what the
    reader's allocator will answer. -/
structure BinaryReader where
  stream : IStream
  bigEndian : Bool
  varintLong : Bool
  steps : List Nat
  stepsCap : Nat
  isFlexible : Bool
  heap : Heap
deriving DecidableEq, Repr

/-- A function of the reader. -/
abbrev ReadM := Fallible BinaryReader SfError

namespace BinaryReader

/-- `sf_binary_reader_create` over a fresh memory stream; `flexible` is
    `g_binary_reader_flexible_default`. -/
def create (data : List UInt8) (bigEndian flexible : Bool) (heap : Heap) : BinaryReader :=
  { stream := { mem := data, memPos := 0 }, bigEndian := bigEndian, varintLong := false, steps := [],
    stepsCap := 0, isFlexible := flexible, heap := heap }

/-- Run `m` on a reader over `data`; the stream and the reader are allocated first. -/
def onMemory {α : Type} (data : List UInt8) (bigEndian flexible : Bool)
    (m : Fallible BinaryReader SfError α) : Fallible Heap SfError α := do
  let _ ← Heap.alloc
  let _ ← Heap.alloc
  fun heap =>
    ((m (create data bigEndian flexible heap)).1, (m (create data bigEndian flexible heap)).2.heap)

/-- A stream operation on the reader's stream. -/
def onStream {α : Type} (m : Fallible IStream SfError α) : ReadM α :=
  zoom BinaryReader.stream (fun s r => { r with stream := s }) m

/-- An operation that asks the reader's allocator. -/
def onHeap {α : Type} (m : Fallible Heap SfError α) : ReadM α :=
  zoom BinaryReader.heap (fun h r => { r with heap := h }) m

def position (r : BinaryReader) : Nat := r.stream.memPos

def length (r : BinaryReader) : Nat := r.stream.length

def setBigEndian (be : Bool) : ReadM Unit := update fun r => { r with bigEndian := be }

def setVarintLong (long64 : Bool) : ReadM Unit := update fun r => { r with varintLong := long64 }

/-- The sum of two `int64_t`, such as a base and an offset; an overflow is undefined. -/
def int64Add (a b : Int) : ReadM Int := do
  check (-2 ^ 63 ≤ a + b ∧ a + b < 2 ^ 63) .undefinedBehaviour
  pure (a + b)

/-! ## Steps and skips -/

/-- `steps_push`: the stack grows when it is full, and only then asks the allocator. -/
def stepsPush (pos : Nat) : ReadM Unit := do
  let r ← state
  if r.steps.length = r.stepsCap then do
    let _ ← onHeap Heap.alloc
    update fun r => { r with stepsCap := if r.stepsCap ≠ 0 then r.stepsCap * 2 else 8 }
  update fun r => { r with steps := pos :: r.steps }

def stepIn (pos : Int) : ReadM Unit := do
  let cur ← peek position
  stepsPush cur
  onStream (IStream.seek pos)

def stepOut : ReadM Unit := do
  let r ← state
  match r.steps with
  | [] => fail .internal
  | pos :: rest => do
    update fun r => { r with steps := rest }
    onStream (IStream.seek pos)

def pad (align : Int) : ReadM Unit := do
  check (0 < align) .invalidArg
  let pos ← peek position
  let rem := (pos : Int) % align
  if rem = 0 then pure () else onStream (IStream.seek (pos + (align - rem)))

def padRelative (start align : Int) : ReadM Unit := do
  check (0 < align) .invalidArg
  let pos ← peek position
  check (start ≤ pos) .invalidArg
  let rem := ((pos : Int) - start) % align
  if rem = 0 then pure () else onStream (IStream.seek (pos + (align - rem)))

def skip (n : Int) : ReadM Unit := do
  let pos ← peek position
  onStream (IStream.seek (pos + n))

/-! ## Primitive reads -/

def readBytes (n : Nat) : ReadM (List UInt8) := onStream (IStream.read n)

/-- `DEFINE_RW_INT`: the bytes as a host (little-endian) word, swapped for a big-endian reader. -/
def defineReadInt (n : Nat) : ReadM Nat := do
  let bs ← readBytes n
  let r ← state
  pure (if r.bigEndian then bswap n (leNat bs) else leNat bs)

def readU8 : ReadM UInt8 := do
  let bs ← readBytes 1
  pure (bs.headD 0)

/-- `sf_binary_reader_read_bool`: a byte that is neither 0 nor 1 is refused. -/
def readBool : ReadM Bool := do
  let b ← readU8
  check (b ≤ 1) .badMagic
  pure (b != 0)

def readI8 : ReadM Int8 := do
  let b ← readU8
  pure b.toInt8

def readU16 : ReadM UInt16 := do
  let v ← defineReadInt 2
  pure (UInt16.ofNat v)

def readU32 : ReadM UInt32 := do
  let v ← defineReadInt 4
  pure (UInt32.ofNat v)

def readU64 : ReadM UInt64 := do
  let v ← defineReadInt 8
  pure (UInt64.ofNat v)

def readI16 : ReadM Int16 := do
  let u ← readU16
  pure u.toInt16

def readI32 : ReadM Int32 := do
  let u ← readU32
  pure u.toInt32

def readI64 : ReadM Int64 := do
  let u ← readU64
  pure u.toInt64

def readF32 : ReadM UInt32 := readU32

def readF64 : ReadM UInt64 := readU64

/-- `sf_binary_reader_read_varint`: eight bytes or a sign-extended four. -/
def readVarint : ReadM Int64 := do
  let r ← state
  if r.varintLong then readI64
  else do
    let v ← readI32
    pure v.toInt64

/-! ## Arrays -/

/-- The loop of `read_bools` and `read_varints`: element by element, up to the first failure. -/
def readEach {α : Type} (m : ReadM α) : Nat → ReadM (List α)
  | 0 => pure []
  | n + 1 => do
    let v ← m
    let vs ← readEach m n
    pure (v :: vs)

/-- The `n` host words of `size` bytes that a block holds. -/
def hostWords (size n : Nat) (bs : List UInt8) : List Nat :=
  (List.range n).map fun i => leNat ((bs.drop (i * size)).take size)

/-- `DEFINE_READ_ARRAY_RAW`: one block, swapped element by element for a big-endian reader. -/
def defineReadArrayRaw (size n : Nat) : ReadM (List Nat) :=
  if n = 0 then pure []
  else do
    check (n ≤ SIZE_MAX / size) .outOfRange
    let bs ← readBytes (n * size)
    let r ← state
    pure (if r.bigEndian then (hostWords size n bs).map (bswap size) else hostWords size n bs)

def readBools (n : Nat) : ReadM (List Bool) := readEach readBool n

def readU8s (n : Nat) : ReadM (List UInt8) := if n = 0 then pure [] else readBytes n

def readI8s (n : Nat) : ReadM (List Int8) :=
  if n = 0 then pure []
  else do
    let bs ← readBytes n
    pure (bs.map UInt8.toInt8)

def readU16s (n : Nat) : ReadM (List UInt16) := do
  let vs ← defineReadArrayRaw 2 n
  pure (vs.map UInt16.ofNat)

def readI16s (n : Nat) : ReadM (List Int16) := do
  let vs ← defineReadArrayRaw 2 n
  pure (vs.map fun v => (UInt16.ofNat v).toInt16)

def readU32s (n : Nat) : ReadM (List UInt32) := do
  let vs ← defineReadArrayRaw 4 n
  pure (vs.map UInt32.ofNat)

def readI32s (n : Nat) : ReadM (List Int32) := do
  let vs ← defineReadArrayRaw 4 n
  pure (vs.map fun v => (UInt32.ofNat v).toInt32)

def readU64s (n : Nat) : ReadM (List UInt64) := do
  let vs ← defineReadArrayRaw 8 n
  pure (vs.map UInt64.ofNat)

def readI64s (n : Nat) : ReadM (List Int64) := do
  let vs ← defineReadArrayRaw 8 n
  pure (vs.map fun v => (UInt64.ofNat v).toInt64)

def readF32s (n : Nat) : ReadM (List UInt32) := readU32s n

def readF64s (n : Nat) : ReadM (List UInt64) := readU64s n

def readVarints (n : Nat) : ReadM (List Int64) := readEach readVarint n

/-! ## Asserts and enums -/

/-- `DEFINE_ASSERT_MULTI`: a flexible reader takes any value. -/
def defineAssertMulti {α : Type} [DecidableEq α] (read : ReadM α) (options : List α) : ReadM α := do
  check (0 < options.length) .invalidArg
  let v ← read
  let r ← state
  if r.isFlexible then pure v
  else do
    check (v ∈ options) .badMagic
    pure v

def assertU8 (options : List UInt8) : ReadM UInt8 := defineAssertMulti readU8 options

def assertBool (options : List Bool) : ReadM Bool := defineAssertMulti readBool options

def assertI8 (options : List Int8) : ReadM Int8 := defineAssertMulti readI8 options

def assertI16 (options : List Int16) : ReadM Int16 := defineAssertMulti readI16 options

def assertI32 (options : List Int32) : ReadM Int32 := defineAssertMulti readI32 options

def assertVarint (options : List Int64) : ReadM Int64 := defineAssertMulti readVarint options

/-- `DEFINE_ENUM_READ`. -/
def defineEnumRead {α : Type} [DecidableEq α] (read : ReadM α) (options : List α) : ReadM α := do
  check (0 < options.length) .invalidArg
  let v ← read
  check (v ∈ options) .badMagic
  pure v

def readEnum8 (options : List UInt8) : ReadM UInt8 := defineEnumRead readU8 options

def readEnum16 (options : List UInt16) : ReadM UInt16 := defineEnumRead readU16 options

def readEnum32 (options : List UInt32) : ReadM UInt32 := defineEnumRead readU32 options

def readEnum64 (options : List UInt64) : ReadM UInt64 := defineEnumRead readU64 options

/-- The sizes of the steps in which a loop works off `n` bytes through a buffer of `size` bytes. -/
def chunkSizes (size n : Nat) : List Nat :=
  List.replicate (n / size) size ++ if n % size = 0 then [] else [n % size]

/-- The loop of `sf_binary_reader_assert_pattern`. -/
def assertChunks (pattern : UInt8) : List Nat → ReadM Unit
  | [] => pure ()
  | chunk :: rest => do
    let buf ← readBytes chunk
    check (buf.all fun b => b = pattern) .badMagic
    assertChunks pattern rest

/-- `sf_binary_reader_assert_pattern`, in chunks of 256 bytes. -/
def assertPattern (length : Nat) (pattern : UInt8) : ReadM Unit :=
  assertChunks pattern (chunkSizes 256 length)

/-- `sf_binary_reader_assert_ascii`; only a text that does not fit the 64-byte buffer needs a block. -/
def assertAscii (expected : List UInt8) : ReadM Unit := do
  if 64 < expected.length then do
    let _ ← onHeap Heap.alloc
  let buf ← readBytes expected.length
  check (buf = expected) .badMagic

/-! ## Strings -/

/-- A decoder of `sf_encoding.h`. -/
abbrev Decode := List UInt8 → Fallible Heap SfError (List UInt8)

/-- The loop of `read_str_terminated_1byte` (`width` 1) and `sf_binary_reader_read_utf16` (`width`
    2): units up to the first that is zero, in a buffer that doubles. Every round takes `width` bytes
    from the stream, so the fuel its caller gives never runs out. -/
def readTerminated (width : Nat) : Nat → Nat → List UInt8 → ReadM (List UInt8)
  | 0, _, _ => fail .nonTermination
  | fuel + 1, cap, buf => do
    let unit ← readBytes width
    if unit = List.replicate width 0 then pure buf
    else if cap < buf.length + width then do
      let _ ← onHeap Heap.alloc
      readTerminated width fuel (cap * 2) (buf ++ unit)
    else readTerminated width fuel cap (buf ++ unit)

/-- A terminated string, decoded. The decoder may depend on the byte order. -/
def readStrTerminated (width : Nat) (decode : Bool → Decode) : ReadM (List UInt8) := do
  let _ ← onHeap Heap.alloc
  let r ← state
  let buf ← readTerminated width (r.length - r.position + 1) 64 []
  onHeap (decode r.bigEndian buf)

/-- `read_str_n`. -/
def readStrN (n : Nat) (decode : Decode) : ReadM (List UInt8) :=
  if n = 0 then onHeap (decode [])
  else do
    let _ ← onHeap Heap.alloc
    let buf ← readBytes n
    onHeap (decode buf)

section Strings

variable (os : Win32)

/-- The decoder of `sf_binary_reader_read_utf16`. -/
def utf16Decode (bigEndian : Bool) : Decode :=
  if bigEndian then utf16beToUtf8 os else utf16leToUtf8 os

def readAscii : ReadM (List UInt8) := readStrTerminated 1 fun _ => asciiToUtf8

def readAsciiN (n : Nat) : ReadM (List UInt8) := readStrN n asciiToUtf8

def readShiftJis : ReadM (List UInt8) := readStrTerminated 1 fun _ => shiftJisToUtf8 os

def readShiftJisN (n : Nat) : ReadM (List UInt8) := readStrN n (shiftJisToUtf8 os)

def readUtf16 : ReadM (List UInt8) := readStrTerminated 2 (utf16Decode os)

/-- What `sf_binary_reader_read_fix_str_w` keeps of its field: the pairs before the first that is
    zero, and an odd last byte if there is none. -/
def cutUtf16 : List UInt8 → List UInt8
  | a :: b :: rest => if a = 0 ∧ b = 0 then [] else a :: b :: cutUtf16 rest
  | rest => rest

def readFixStr (size : Nat) : ReadM (List UInt8) :=
  if size = 0 then onHeap (shiftJisToUtf8 os [])
  else do
    let _ ← onHeap Heap.alloc
    let buf ← readBytes size
    onHeap (shiftJisToUtf8 os (cText buf))

def readFixStrW (size : Nat) : ReadM (List UInt8) :=
  if size = 0 then onHeap (utf16leToUtf8 os [])
  else do
    let _ ← onHeap Heap.alloc
    let buf ← readBytes size
    let r ← state
    onHeap (utf16Decode os r.bigEndian (cutUtf16 buf))

end Strings

/-! ## Reads at an absolute offset -/

/-- The body of `DEFINE_GET`, `DEFINE_GET_ARRAY`, `DEFINE_GET_STRING` and their hand-written
    siblings. A step-in that fails leaves at once, without a step-out. -/
def defineGet {α : Type} (off : Int) (read : ReadM α) : ReadM α := do
  stepIn off
  let e ← attempt read
  let e2 ← attempt stepOut
  match e, e2 with
  | .error err, _ => fail err
  | .ok _, .error err => fail err
  | .ok v, .ok () => pure v

def getBool (off : Int) : ReadM Bool := defineGet off readBool
def getI8 (off : Int) : ReadM Int8 := defineGet off readI8
def getU8 (off : Int) : ReadM UInt8 := defineGet off readU8
def getI16 (off : Int) : ReadM Int16 := defineGet off readI16
def getU16 (off : Int) : ReadM UInt16 := defineGet off readU16
def getU32 (off : Int) : ReadM UInt32 := defineGet off readU32
def getI32 (off : Int) : ReadM Int32 := defineGet off readI32
def getU64 (off : Int) : ReadM UInt64 := defineGet off readU64
def getI64 (off : Int) : ReadM Int64 := defineGet off readI64
def getF32 (off : Int) : ReadM UInt32 := defineGet off readF32
def getF64 (off : Int) : ReadM UInt64 := defineGet off readF64
def getVarint (off : Int) : ReadM Int64 := defineGet off readVarint

def getBytes (off : Int) (n : Nat) : ReadM (List UInt8) := defineGet off (readBytes n)

def getBools (off : Int) (n : Nat) : ReadM (List Bool) := defineGet off (readBools n)
def getI8s (off : Int) (n : Nat) : ReadM (List Int8) := defineGet off (readI8s n)
def getU8s (off : Int) (n : Nat) : ReadM (List UInt8) := defineGet off (readU8s n)
def getI16s (off : Int) (n : Nat) : ReadM (List Int16) := defineGet off (readI16s n)
def getU16s (off : Int) (n : Nat) : ReadM (List UInt16) := defineGet off (readU16s n)
def getI32s (off : Int) (n : Nat) : ReadM (List Int32) := defineGet off (readI32s n)
def getU32s (off : Int) (n : Nat) : ReadM (List UInt32) := defineGet off (readU32s n)
def getI64s (off : Int) (n : Nat) : ReadM (List Int64) := defineGet off (readI64s n)
def getU64s (off : Int) (n : Nat) : ReadM (List UInt64) := defineGet off (readU64s n)
def getF32s (off : Int) (n : Nat) : ReadM (List UInt32) := defineGet off (readF32s n)
def getF64s (off : Int) (n : Nat) : ReadM (List UInt64) := defineGet off (readF64s n)
def getVarints (off : Int) (n : Nat) : ReadM (List Int64) := defineGet off (readVarints n)

/-- The getter of `DEFINE_ENUM_READ`: an empty option list is rejected before the step-in. -/
def defineGetEnum {α : Type} (off : Int) (readEnum : List α → ReadM α) (options : List α) :
    ReadM α := do
  check (0 < options.length) .invalidArg
  defineGet off (readEnum options)

def getEnum8 (off : Int) : List UInt8 → ReadM UInt8 := defineGetEnum off readEnum8
def getEnum16 (off : Int) : List UInt16 → ReadM UInt16 := defineGetEnum off readEnum16
def getEnum32 (off : Int) : List UInt32 → ReadM UInt32 := defineGetEnum off readEnum32
def getEnum64 (off : Int) : List UInt64 → ReadM UInt64 := defineGetEnum off readEnum64

def getAscii (off : Int) : ReadM (List UInt8) := defineGet off readAscii
def getShiftJis (os : Win32) (off : Int) : ReadM (List UInt8) := defineGet off (readShiftJis os)
def getUtf16 (os : Win32) (off : Int) : ReadM (List UInt8) := defineGet off (readUtf16 os)
def getAsciiN (off : Int) (n : Nat) : ReadM (List UInt8) := defineGet off (readAsciiN n)
def getShiftJisN (os : Win32) (off : Int) (n : Nat) : ReadM (List UInt8) :=
  defineGet off (readShiftJisN os n)

/-! ## Calls -/

/-- What a call reads: the `read` functions that also come as a `get`, with their arguments. -/
inductive ReadCall where
  | scalar (k : Scalar)
  | array (k : Scalar) (n : Nat)
  | bytes (n : Nat)
  | enum8 (options : List UInt8)
  | enum16 (options : List UInt16)
  | enum32 (options : List UInt32)
  | enum64 (options : List UInt64)
  | ascii
  | asciiN (n : Nat)
  | shiftJis
  | shiftJisN (n : Nat)
  | utf16
deriving DecidableEq, Repr

/-- What a call hands to its caller. -/
abbrev ReadCall.Value : ReadCall → Type
  | scalar k => k.Value
  | array k _ => List k.Value
  | enum8 _ => UInt8
  | enum16 _ => UInt16
  | enum32 _ => UInt32
  | enum64 _ => UInt64
  | _ => List UInt8

/-- The `sf_binary_reader_read_*` function of a call. -/
def ReadCall.read (os : Win32) : (c : ReadCall) → ReadM c.Value
  | scalar .bool => readBool
  | scalar .i8 => readI8
  | scalar .u8 => readU8
  | scalar .i16 => readI16
  | scalar .u16 => readU16
  | scalar .u32 => readU32
  | scalar .i32 => readI32
  | scalar .u64 => readU64
  | scalar .i64 => readI64
  | scalar .f32 => readF32
  | scalar .f64 => readF64
  | scalar .varint => readVarint
  | array .bool n => readBools n
  | array .i8 n => readI8s n
  | array .u8 n => readU8s n
  | array .i16 n => readI16s n
  | array .u16 n => readU16s n
  | array .u32 n => readU32s n
  | array .i32 n => readI32s n
  | array .u64 n => readU64s n
  | array .i64 n => readI64s n
  | array .f32 n => readF32s n
  | array .f64 n => readF64s n
  | array .varint n => readVarints n
  | bytes n => readBytes n
  | enum8 options => readEnum8 options
  | enum16 options => readEnum16 options
  | enum32 options => readEnum32 options
  | enum64 options => readEnum64 options
  | ascii => readAscii
  | asciiN n => readAsciiN n
  | shiftJis => readShiftJis os
  | shiftJisN n => readShiftJisN os n
  | utf16 => readUtf16 os

/-- The `sf_binary_reader_get_*` function of a call, at the offset `off`. -/
def ReadCall.get (os : Win32) (off : Int) : (c : ReadCall) → ReadM c.Value
  | scalar .bool => getBool off
  | scalar .i8 => getI8 off
  | scalar .u8 => getU8 off
  | scalar .i16 => getI16 off
  | scalar .u16 => getU16 off
  | scalar .u32 => getU32 off
  | scalar .i32 => getI32 off
  | scalar .u64 => getU64 off
  | scalar .i64 => getI64 off
  | scalar .f32 => getF32 off
  | scalar .f64 => getF64 off
  | scalar .varint => getVarint off
  | array .bool n => getBools off n
  | array .i8 n => getI8s off n
  | array .u8 n => getU8s off n
  | array .i16 n => getI16s off n
  | array .u16 n => getU16s off n
  | array .u32 n => getU32s off n
  | array .i32 n => getI32s off n
  | array .u64 n => getU64s off n
  | array .i64 n => getI64s off n
  | array .f32 n => getF32s off n
  | array .f64 n => getF64s off n
  | array .varint n => getVarints off n
  | bytes n => getBytes off n
  | enum8 options => getEnum8 off options
  | enum16 options => getEnum16 off options
  | enum32 options => getEnum32 off options
  | enum64 options => getEnum64 off options
  | ascii => getAscii off
  | asciiN n => getAsciiN off n
  | shiftJis => getShiftJis os off
  | shiftJisN n => getShiftJisN os off n
  | utf16 => getUtf16 os off

end BinaryReader

end SoulsFormats
