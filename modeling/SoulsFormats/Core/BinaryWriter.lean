import SoulsFormats.Library.OpenAddressing
import SoulsFormats.Core.BinaryReader

set_option autoImplicit false

/-! # The binary writer

`sf_binary_writer_t` over a memory stream, with its table of reservations: `reserve` writes a
placeholder and remembers where, under the name and the kind it was given, and `fill` goes back there
and writes the value. As for the reader, `BinaryWriter.writeU16` is `sf_binary_writer_write_u16` and so
on, and a macro's instances are its body applied to their arguments. The allocator of the writer and
the one of its stream answer from one `Heap`, the stream's. -/

namespace SoulsFormats

open Bytes Fallible OpenAddressing

/-! ## The table of reservations -/

/-- `sfres_kind_t`. -/
inductive SfresKind where
  | bool | i8 | u8 | i16 | u16 | u32 | i32 | u64 | i64 | varint4 | varint8 | f32 | f64
deriving DecidableEq, Repr

/-- `kind_width`. -/
def kindWidth : SfresKind → Nat
  | .bool | .i8 | .u8 => 1
  | .i16 | .u16 => 2
  | .u32 | .i32 => 4
  | .u64 | .i64 => 8
  | .varint4 => 4
  | .varint8 => 8
  | .f32 => 4
  | .f64 => 8

/-- `sfres_slot_t` when it is occupied; the other two states are the constructors of `Slot`. -/
structure SfresEntry where
  name : List UInt8
  pos : Nat
  nameHash : UInt32
  kind : SfresKind
deriving DecidableEq, Repr

abbrev SfresSlot := Slot SfresEntry

/-- FNV-1a-32 over the bytes of the name. -/
def sfresHash (name : List UInt8) : UInt32 :=
  name.foldl (fun h p => (h ^^^ p.toUInt32) * 16777619) 2166136261

/-- The comparison of both probe walks. -/
def SfresEntry.matches (hash : UInt32) (kind : SfresKind) (name : List UInt8) (s : SfresEntry) :
    Bool :=
  s.nameHash == hash && s.kind == kind && s.name == name

def sfresProbeLookup (slots : List SfresSlot) (hash : UInt32) (kind : SfresKind)
    (name : List UInt8) : Option Nat :=
  lookup slots (slots.length - 1) (SfresEntry.matches hash kind name) slots.length
    (hash.toNat &&& (slots.length - 1))

def sfresProbeInsert (slots : List SfresSlot) (hash : UInt32) (kind : SfresKind)
    (name : List UInt8) : Option Place :=
  insertAt slots (slots.length - 1) (SfresEntry.matches hash kind name) slots.length
    (hash.toNat &&& (slots.length - 1)) none

/-- The loop of `sfres_table_grow` over the old slots. -/
def sfresRehash : List SfresSlot → List SfresSlot → Option (List SfresSlot)
  | [], newSlots => some newSlots
  | .occupied src :: rest, newSlots =>
    match sfresProbeInsert newSlots src.nameHash src.kind src.name with
    | none => none
    | some (.found idx) => sfresRehash rest (newSlots.set idx (.occupied src))
    | some (.free idx) => sfresRehash rest (newSlots.set idx (.occupied src))
  | _ :: rest, newSlots => sfresRehash rest newSlots

/-! ## The writer -/

/-- `sf_binary_writer_t`; `res_cap` is the length of `resSlots`. -/
structure BinaryWriter where
  stream : OStream
  bigEndian : Bool
  varintLong : Bool
  steps : List Nat
  stepsCap : Nat
  resSlots : List SfresSlot
  resUsed : Nat
  resLive : Nat
  closed : Bool
deriving DecidableEq, Repr

/-- A function of the writer. -/
abbrev WriteM := Fallible BinaryWriter SfError

namespace BinaryWriter

/-- `sf_binary_writer_create`. -/
def createOver (stream : OStream) (bigEndian : Bool) : BinaryWriter :=
  { stream := stream, bigEndian := bigEndian, varintLong := false, steps := [], stepsCap := 0,
    resSlots := [], resUsed := 0, resLive := 0, closed := false }

/-- A writer over a fresh memory stream. -/
def create (bigEndian : Bool) (heap : Heap) : BinaryWriter :=
  createOver (OStream.openMemory heap) bigEndian

/-- A stream operation on the writer's stream. -/
def onStream {α : Type} (m : Fallible OStream SfError α) : WriteM α :=
  zoom BinaryWriter.stream (fun s w => { w with stream := s }) m

/-- An operation that asks the writer's allocator. -/
def onHeap {α : Type} (m : Fallible Heap SfError α) : WriteM α :=
  onStream (zoom OStream.heap (fun h s => { s with heap := h }) m)

def resCap (w : BinaryWriter) : Nat := w.resSlots.length

def position (w : BinaryWriter) : Nat := w.stream.memPos

def length (w : BinaryWriter) : Nat := w.stream.memSize

/-- What the stream holds so far. -/
def content (w : BinaryWriter) : List UInt8 := w.stream.content

def setBigEndian (be : Bool) : WriteM Unit := update fun w => { w with bigEndian := be }

def setVarintLong (l : Bool) : WriteM Unit := update fun w => { w with varintLong := l }

def writerOpen : WriteM Unit := do
  let w ← state
  check (w.closed = false) .invalidArg

def finish : WriteM Unit := do
  let w ← state
  check (¬ 0 < w.resLive) .internal
  update fun w => { w with closed := true }

/-- `sfi_ostream_to_array` allocates its copy only where there is something to copy. -/
def toArray : WriteM (List UInt8) := do
  let w ← state
  if 0 < w.length then do
    let _ ← onHeap Heap.alloc
  pure w.content

def finishBytes : WriteM (List UInt8) := do
  let w ← state
  check (¬ 0 < w.resLive) .internal
  let out ← toArray
  update fun w => { w with closed := true }
  pure out

/-- The shape of every `_write_to_memory`: a writer over a fresh memory stream, the body, and
    `sf_binary_writer_finish_bytes`. -/
def writeToMemory (bigEndian : Bool) (body : WriteM Unit) : Fallible Heap SfError (List UInt8) := do
  let _ ← Heap.alloc
  let _ ← Heap.alloc
  fun heap =>
    let (r, w) := (body >>= fun _ => finishBytes) (create bigEndian heap)
    (r, w.stream.heap)

/-- The shape of the `_write_to_memory` that ask for the room they expect to need, and hand out the block of
    the stream. Not to get the room is no failure. -/
def writeDetached (estimate : Nat) (bigEndian : Bool) (body : WriteM Unit) :
    Fallible Heap SfError (List UInt8) := do
  let _ ← Heap.alloc
  fun heap =>
    let stream :=
      if estimate ≠ SIZE_MAX then (OStream.reserve estimate (OStream.openMemory heap)).2
      else OStream.openMemory heap
    let (r, w) := (do
      let _ ← onHeap Heap.alloc
      body
      finish
      peek content) (createOver stream bigEndian)
    (r, w.stream.heap)

/-! ## Steps and padding -/

def stepsPush (pos : Nat) : WriteM Unit := do
  let w ← state
  if w.steps.length = w.stepsCap then do
    let _ ← onHeap Heap.alloc
    update fun w => { w with stepsCap := if w.stepsCap ≠ 0 then w.stepsCap * 2 else 8 }
  update fun w => { w with steps := pos :: w.steps }

def stepIn (pos : Int) : WriteM Unit := do
  writerOpen
  let cur ← peek position
  stepsPush cur
  onStream (OStream.seek pos)

def stepOut : WriteM Unit := do
  writerOpen
  let w ← state
  match w.steps with
  | [] => fail .internal
  | pos :: rest => do
    update fun w => { w with steps := rest }
    onStream (OStream.seek pos)

/-- The loop with which a run of equal bytes goes to the stream. -/
def writeChunks (fill : UInt8) : List Nat → WriteM Unit
  | [] => pure ()
  | chunk :: rest => do
    onStream (OStream.write (List.replicate chunk fill))
    writeChunks fill rest

def padByte (align : Int) (fill : UInt8) : WriteM Unit := do
  writerOpen
  check (0 < align) .invalidArg
  let pos ← peek position
  let rem := (pos : Int) % align
  if rem = 0 then pure () else writeChunks fill (BinaryReader.chunkSizes 64 (align - rem).toNat)

def pad (align : Int) : WriteM Unit := padByte align 0

def padFf (align : Int) : WriteM Unit := padByte align 0xFF

def padRelative (start align : Int) : WriteM Unit := do
  writerOpen
  let pos ← peek position
  check (0 < align ∧ start ≤ pos) .invalidArg
  let rem := ((pos : Int) - start) % align
  if rem = 0 then pure () else writeChunks 0 (BinaryReader.chunkSizes 64 (align - rem).toNat)

def writePattern (length : Nat) (v : UInt8) : WriteM Unit := do
  writerOpen
  writeChunks v (BinaryReader.chunkSizes 256 length)

/-! ## Primitive writes -/

def writeBytes (buf : List UInt8) : WriteM Unit := do
  writerOpen
  onStream (OStream.write buf)

def writeBool (v : Bool) : WriteM Unit := writeBytes [if v then 1 else 0]

def writeU8 (v : UInt8) : WriteM Unit := writeBytes [v]

def writeI8 (v : Int8) : WriteM Unit := writeBytes [v.toUInt8]

/-- `DEFINE_WRITE_INT`: the host word, swapped for a big-endian writer. -/
def defineWriteInt (n v : Nat) : WriteM Unit := do
  writerOpen
  let w ← state
  onStream (OStream.write (leBytes n (if w.bigEndian then bswap n v else v)))

def writeU16 (v : UInt16) : WriteM Unit := defineWriteInt 2 v.toNat

def writeU32 (v : UInt32) : WriteM Unit := defineWriteInt 4 v.toNat

def writeU64 (v : UInt64) : WriteM Unit := defineWriteInt 8 v.toNat

def writeI16 (v : Int16) : WriteM Unit := writeU16 v.toUInt16

def writeI32 (v : Int32) : WriteM Unit := writeU32 v.toUInt32

def writeI64 (v : Int64) : WriteM Unit := writeU64 v.toUInt64

def writeF32 (v : UInt32) : WriteM Unit := writeU32 v

def writeF64 (v : UInt64) : WriteM Unit := writeU64 v

/-- A short varint keeps the low four bytes. -/
def writeVarint (v : Int64) : WriteM Unit := do
  writerOpen
  let w ← state
  if w.varintLong then writeI64 v else writeI32 v.toInt32

/-- The write function of a scalar. -/
def writeScalar : (k : Scalar) → k.Value → WriteM Unit
  | .bool => writeBool
  | .i8 => writeI8
  | .u8 => writeU8
  | .i16 => writeI16
  | .u16 => writeU16
  | .u32 => writeU32
  | .i32 => writeI32
  | .u64 => writeU64
  | .i64 => writeI64
  | .f32 => writeF32
  | .f64 => writeF64
  | .varint => writeVarint

/-- `DEFINE_WRITE_ARRAY`. -/
def writeEach {α : Type} (write : α → WriteM Unit) : List α → WriteM Unit
  | [] => pure ()
  | v :: vs => do
    write v
    writeEach write vs

def defineWriteArray {α : Type} (write : α → WriteM Unit) (values : List α) : WriteM Unit := do
  writerOpen
  writeEach write values

/-! ## Reservations -/

def sfresTableGrow (newCap : Nat) : WriteM Unit := do
  let _ ← onHeap Heap.alloc
  let w ← state
  match sfresRehash w.resSlots (List.replicate newCap .empty) with
  | none => fail .nonTermination
  -- the tombstones are gone after the rehash
  | some slots => update fun w => { w with resSlots := slots, resUsed := w.resLive }

/-- The resizing that opens `reservations_push`. A doubled capacity that does not fit a `size_t` has
    wrapped and is smaller than the old one. -/
def reservationsResize : WriteM Unit := do
  let w ← state
  if w.resCap = 0 then sfresTableGrow 16
  else if w.resCap * 7 < (w.resUsed + 1) * 10 then do
    check (w.resCap * 2 ≤ SIZE_MAX) .outOfRange
    sfresTableGrow (w.resCap * 2)
  else pure ()

def reservationsPush (name : List UInt8) (pos : Nat) (kind : SfresKind) : WriteM Unit := do
  reservationsResize
  let w ← state
  let hash := sfresHash name
  match sfresProbeInsert w.resSlots hash kind name with
  | none => fail .nonTermination
  | some (.found _) => fail .alreadyExists
  | some (.free idx) => do
    let _ ← onHeap Heap.alloc
    update fun w =>
      { w with
        resSlots := w.resSlots.set idx (.occupied ⟨name, pos, hash, kind⟩)
        resUsed := if w.resSlots[idx]? = some .tombstone then w.resUsed else w.resUsed + 1
        resLive := w.resLive + 1 }

/-- The slot `reservations_pop` and `reservations_peek` look up. -/
def reservationsFind (name : List UInt8) (kind : SfresKind) : WriteM (Nat × SfresEntry) := do
  let w ← state
  check (w.resCap ≠ 0) .notFound
  match sfresProbeLookup w.resSlots (sfresHash name) kind name with
  | none => fail .nonTermination
  | some idx =>
    match w.resSlots[idx]? with
    | some (.occupied slot) => pure (idx, slot)
    | _ => fail .notFound

def reservationsPop (name : List UInt8) (kind : SfresKind) : WriteM Nat := do
  let (idx, slot) ← reservationsFind name kind
  update fun w => { w with resSlots := w.resSlots.set idx .tombstone, resLive := w.resLive - 1 }
  pure slot.pos

def reservationsPeek (name : List UInt8) (kind : SfresKind) : WriteM Nat := do
  let (_, slot) ← reservationsFind name kind
  pure slot.pos

def reserveKind (name : List UInt8) (kind : SfresKind) : WriteM Unit := do
  writerOpen
  let pos ← peek position
  reservationsPush name pos kind
  let e ← attempt (writePattern (kindWidth kind) 0xFE)
  match e with
  | .ok () => pure ()
  | .error err => do
    let _ ← attempt (reservationsPop name kind)
    fail err

/-- The kind a scalar is reserved and filled under: that of a varint depends on its width. -/
def scalarKind (varintLong : Bool) : Scalar → SfresKind
  | .bool => .bool
  | .i8 => .i8
  | .u8 => .u8
  | .i16 => .i16
  | .u16 => .u16
  | .u32 => .u32
  | .i32 => .i32
  | .u64 => .u64
  | .i64 => .i64
  | .f32 => .f32
  | .f64 => .f64
  | .varint => if varintLong then .varint8 else .varint4

/-- `sf_binary_writer_reserve_bool` to `sf_binary_writer_reserve_f64`. -/
def reserveScalar (k : Scalar) (n : List UInt8) : WriteM Unit := do
  writerOpen
  let w ← state
  reserveKind n (scalarKind w.varintLong k)

/-- `DEFINE_FILL` and `sf_binary_writer_fill_varint`. -/
def fillScalar (k : Scalar) (n : List UInt8) (v : k.Value) : WriteM Unit := do
  writerOpen
  let w ← state
  let kind := scalarKind w.varintLong k
  let pos ← reservationsPeek n kind
  stepIn pos
  let e ← attempt (writeScalar k v)
  let e2 ← attempt stepOut
  match e, e2 with
  | .error err, _ => fail err
  | .ok _, .error err => fail err
  | .ok _, .ok _ => do
    let _ ← attempt (reservationsPop n kind)
    pure ()

def reserveU16 (n : List UInt8) : WriteM Unit := reserveScalar .u16 n
def reserveU32 (n : List UInt8) : WriteM Unit := reserveScalar .u32 n
def reserveI32 (n : List UInt8) : WriteM Unit := reserveScalar .i32 n
def reserveI64 (n : List UInt8) : WriteM Unit := reserveScalar .i64 n
def reserveVarint (n : List UInt8) : WriteM Unit := reserveScalar .varint n

def fillU16 (n : List UInt8) (v : UInt16) : WriteM Unit := fillScalar .u16 n v
def fillU32 (n : List UInt8) (v : UInt32) : WriteM Unit := fillScalar .u32 n v
def fillI32 (n : List UInt8) (v : Int32) : WriteM Unit := fillScalar .i32 n v
def fillI64 (n : List UInt8) (v : Int64) : WriteM Unit := fillScalar .i64 n v
def fillVarint (n : List UInt8) (v : Int64) : WriteM Unit := fillScalar .varint n v

/-! ## Strings -/

/-- An encoder of `sf_encoding.h`. -/
abbrev Encode := Option (List UInt8) → Bool → Fallible Heap SfError (List UInt8)

/-- The body of `sf_binary_writer_write_ascii`, `_shift_jis` and `_utf16`. -/
def writeStr (encode : Bool → Encode) (utf8 : Option (List UInt8)) (term : Bool) : WriteM Unit := do
  writerOpen
  let w ← state
  let bytes ← onHeap (encode w.bigEndian utf8 term)
  onStream (OStream.write bytes)

/-- `write_fix_str_impl`: the encoded string and its terminator, cut or padded to the field. -/
def writeFixStrImpl (encode : Bool → Encode) (utf8 : Option (List UInt8)) (size : Nat)
    (pad : UInt8) : WriteM Unit := do
  writerOpen
  if size = 0 then pure ()
  else do
    let w ← state
    let raw ← onHeap (encode w.bigEndian utf8 true)
    let _ ← onHeap Heap.alloc
    onStream (OStream.write (raw.take size ++ List.replicate (size - raw.length) pad))

section Strings

variable (os : Win32)

/-- The encoder of `sf_binary_writer_write_utf16`. -/
def utf16Encode (bigEndian : Bool) : Encode := if bigEndian then utf8ToUtf16be os else utf8ToUtf16le os

def writeAscii : Option (List UInt8) → Bool → WriteM Unit := writeStr fun _ => utf8ToAscii os

def writeShiftJis : Option (List UInt8) → Bool → WriteM Unit := writeStr fun _ => utf8ToShiftJis os

def writeUtf16 : Option (List UInt8) → Bool → WriteM Unit := writeStr (utf16Encode os)

def writeFixStr : Option (List UInt8) → Nat → UInt8 → WriteM Unit :=
  writeFixStrImpl fun _ => utf8ToShiftJis os

def writeFixStrW : Option (List UInt8) → Nat → UInt8 → WriteM Unit :=
  writeFixStrImpl (utf16Encode os)

end Strings

/-! ## Calls -/

/-- A call to a function of the writer that is still open. -/
inductive WriterCall where
  | write (k : Scalar) (v : k.Value)
  | writeArray (k : Scalar) (vs : List k.Value)
  | writeBytes (buf : List UInt8)
  | writePattern (length : Nat) (v : UInt8)
  | writeAscii (utf8 : Option (List UInt8)) (term : Bool)
  | writeShiftJis (utf8 : Option (List UInt8)) (term : Bool)
  | writeUtf16 (utf8 : Option (List UInt8)) (term : Bool)
  | writeFixStr (utf8 : Option (List UInt8)) (size : Nat) (pad : UInt8)
  | writeFixStrW (utf8 : Option (List UInt8)) (size : Nat) (pad : UInt8)
  | pad (align : Int)
  | padFf (align : Int)
  | padByte (align : Int) (fill : UInt8)
  | padRelative (start align : Int)
  | stepIn (pos : Int)
  | stepOut
  | setBigEndian (be : Bool)
  | setVarintLong (l : Bool)
  | reserve (k : Scalar) (name : List UInt8)
  | fill (k : Scalar) (name : List UInt8) (v : k.Value)

/-- The function of a call. -/
def WriterCall.run (os : Win32) : WriterCall → WriteM Unit
  | write k v => writeScalar k v
  | writeArray k vs => defineWriteArray (writeScalar k) vs
  | writeBytes buf => BinaryWriter.writeBytes buf
  | writePattern length v => BinaryWriter.writePattern length v
  | writeAscii utf8 term => BinaryWriter.writeAscii os utf8 term
  | writeShiftJis utf8 term => BinaryWriter.writeShiftJis os utf8 term
  | writeUtf16 utf8 term => BinaryWriter.writeUtf16 os utf8 term
  | writeFixStr utf8 size p => BinaryWriter.writeFixStr os utf8 size p
  | writeFixStrW utf8 size p => BinaryWriter.writeFixStrW os utf8 size p
  | pad align => BinaryWriter.pad align
  | padFf align => BinaryWriter.padFf align
  | padByte align v => BinaryWriter.padByte align v
  | padRelative start align => BinaryWriter.padRelative start align
  | stepIn pos => BinaryWriter.stepIn pos
  | stepOut => BinaryWriter.stepOut
  | setBigEndian be => BinaryWriter.setBigEndian be
  | setVarintLong l => BinaryWriter.setVarintLong l
  | reserve k name => reserveScalar k name
  | fill k name v => fillScalar k name v

end BinaryWriter

end SoulsFormats
