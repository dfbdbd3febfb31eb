import SoulsFormats.Core.BinaryWriter
import SoulsFormats.Core.Construction

set_option autoImplicit false

/-! # The lists of an MSB map

The skeleton of `msb_common.c` that the modern map formats share: a header and a chain of lists, each with a table of the
offsets of its entries and the offset of the list behind it, which is zero for the last one. What a list contains is up
to the formats, which write it by a function they pass. -/

namespace SoulsFormats

open Fallible

def MSB_MAX_LISTS : Nat := 16

/-- `msb_list_header_t`. A name that is freed, or was never read, is null. -/
structure MsbListHeader where
  name : Option (List UInt8)
  entryCount : Int32
  dataOffset : Int64
deriving DecidableEq, Repr

def MsbListHeader.blank : MsbListHeader := ⟨none, 0, 0⟩

/-- `msb_layout_t`. -/
structure MsbLayout where
  listCount : Nat
  lists : List MsbListHeader
  bigEndian : Bool
  is64Bit : Bool
  version : Int32
deriving DecidableEq, Repr

/-- What `memset` leaves of the layout. -/
def MsbLayout.blank : MsbLayout := ⟨0, List.replicate MSB_MAX_LISTS .blank, false, false, 0⟩

/-- The lists that a layout has. -/
def MsbLayout.reported (l : MsbLayout) : List MsbListHeader := l.lists.take l.listCount

/-- `msb_common_free_layout`. -/
def MsbLayout.free (l : MsbLayout) : MsbLayout :=
  { l with
    lists := l.lists.mapIdx fun i h => if i < l.listCount then { h with name := none } else h
    listCount := 0 }

/-! ## Reading -/

section Reading

open BinaryReader Built

/-- What `msb_common_read_header` works on: its local `count`, and the layout of the caller. -/
structure MsbFrame where
  count : Nat
  layout : MsbLayout
deriving DecidableEq, Repr

def MsbFrame.lists : TableOf MsbFrame MsbListHeader where
  get f := f.layout.lists
  set l f := { f with layout := { f.layout with lists := l } }
  get_set _ _ := rfl
  set_set _ _ _ := rfl
  set_get _ := rfl

def msbCommonAssertHeader : ReadM Unit := do
  assertAscii (cstr "MSB ")
  let _ ← assertI32 [1]
  let _ ← assertI32 [0x10]
  let _ ← assertBool [false]
  let _ ← assertBool [false]
  let _ ← assertU8 [1]
  let _ ← assertU8 [0xFF]
  pure ()

/-- One list of the loop of `msb_common_read_header`, and the offset of the next one. -/
def msbReadListHeader (os : Win32) : ReadM (MsbListHeader × Int64) := do
  let _ ← readI32
  let offsetCount ← readI32
  let nameOffset ← readI64
  check (1 ≤ offsetCount.toInt) .outOfRange
  let entryCount := offsetCount - 1
  let dataOffset ← peek position
  skip (entryCount.toInt * 8)
  let nextParamOffset ← readI64
  let name ← getUtf16 os nameOffset.toInt
  pure (⟨some name, entryCount, Int64.ofNat dataOffset⟩, nextParamOffset)

/-- The loop of `msb_common_read_header`. The fuel is the number of its rounds. -/
def msbReadLists (os : Win32) : Nat → ConstructM MsbFrame Unit
  | 0 => fail .nonTermination
  | fuel + 1 => do
    let count ← peek fun b => b.object.count
    check (count < MSB_MAX_LISTS) .outOfRange
    let (list, nextParamOffset) ← reading (msbReadListHeader os)
    element MsbFrame.lists .blank count (assign fun _ => list)
    assign fun f => { f with count := f.count + 1 }
    if nextParamOffset = 0 then pure ()
    else do
      reading (onStream (IStream.seek nextParamOffset.toInt))
      msbReadLists os fuel

/-- `out_layout->list_count = count`. -/
def MsbFrame.store (f : MsbFrame) : MsbFrame := { f with layout := { f.layout with listCount := f.count } }

/-- `msb_common_read_header`, with a layout that may hold anything. -/
def msbCommonReadHeader (os : Win32) (fuel : Nat) : ConstructM MsbFrame Unit := do
  let be ← reading (peek BinaryReader.bigEndian)
  assign fun _ => ⟨0, { MsbLayout.blank with bigEndian := be, is64Bit := true, version := 1 }⟩
  reading msbCommonAssertHeader
  onFailure (msbReadLists os fuel) (assign fun f => { f.store with layout := f.store.layout.free })
  assign MsbFrame.store

/-- The loop of `msb_common_iter_lists`, and what the callback returns for every list. -/
def msbIterLists {α : Type} (cb : Option (List UInt8) → Int32 → ReadM α) : List MsbListHeader → ReadM (List α)
  | [] => pure []
  | lh :: rest => do
    onStream (IStream.seek lh.dataOffset.toInt)
    let a ← cb lh.name lh.entryCount
    let as ← msbIterLists cb rest
    pure (a :: as)

/-- `msb_common_iter_lists`. -/
def msbCommonIterLists {α : Type} (layout : MsbLayout) (cb : Option (List UInt8) → Int32 → ReadM α) :
    ReadM (List α) := msbIterLists cb layout.reported

/-- What every callback of the formats starts with: the offsets of the entries. -/
def msbReadEntryOffsets (_name : Option (List UInt8)) (count : Int32) : ReadM (List Int64) :=
  readI64s count.toInt.toNat

end Reading

/-! ## Writing -/

section Writing

open BinaryWriter

/-- `snprintf` into a buffer, which cuts off what it has no room for. -/
def snprintf (size : Nat) (text : List UInt8) : List UInt8 := text.take (size - 1)

def MSB_RESERVE_NAME_MAX : Nat := 32

def msbCommonWriteHeader (os : Win32) : WriteM Unit := do
  writeAscii os (some (cstr "MSB ")) false
  writeI32 1
  writeI32 0x10
  writeBool false
  writeBool false
  writeU8 1
  writeU8 0xFF

def msbNameKey (nextListKey : List UInt8) : List UInt8 :=
  snprintf (MSB_RESERVE_NAME_MAX * 2) (nextListKey ++ cstr "Name")

def msbEntryKey (nextListKey : List UInt8) (i : Nat) : List UInt8 :=
  snprintf (MSB_RESERVE_NAME_MAX * 2) (nextListKey ++ label "Entry" i)

/-- `msb_entry_list_write`. -/
def msbEntryListWrite {ε : Type} (os : Win32) (version : Int32) (typeName nextListKey : List UInt8) (entries : List ε)
    (writeFn : ε → Nat → WriteM Unit) : WriteM Unit := do
  check (entries.length ≤ INT32_MAX - 1) .outOfRange
  writeI32 version
  writeI32 (Int32.ofNat entries.length + 1)
  reserveI64 (msbNameKey nextListKey)
  forIndexed (fun i _ => reserveI64 (msbEntryKey nextListKey i)) 0 entries
  reserveI64 nextListKey
  let namePos ← peek position
  fillI64 (msbNameKey nextListKey) (Int64.ofNat namePos)
  writeUtf16 os (some typeName) true
  pad 8
  forIndexed (fun i entry => do
    let pos ← peek position
    fillI64 (msbEntryKey nextListKey i) (Int64.ofNat pos)
    writeFn entry i) 0 entries

/-- The names under which a format reserves the offset of the next list: `"MsbsNextList%d"` and its like. The buffers
    are long enough for them. -/
structure MsbFormat where
  base : String
  noDigits : (cstr base).any isDigit = false
  short : (cstr base).length ≤ 29

def MsbFormat.msbs : MsbFormat := ⟨"MsbsNextList", by decide, by decide⟩

def MsbFormat.msbe : MsbFormat := ⟨"MsbeNextList", by decide, by decide⟩

def MsbFormat.msbvi : MsbFormat := ⟨"MsbviNextList", by decide, by decide⟩

/-- `msbs_fill_next_param`. -/
def msbFillNextParam (format : MsbFormat) (reserveId : Nat) (offset : Int64) : WriteM Unit :=
  fillI64 (snprintf 32 (label format.base reserveId)) offset

/-- A list to be written, with what the format's function does for each of its entries. -/
structure MsbList (ε : Type) where
  version : Int32
  typeName : List UInt8
  entries : List ε

/-- The loop of `sf_msbs_write_to_memory` over the lists, from a list on, with what follows the loop. -/
def msbWriteLists {ε : Type} (os : Win32) (format : MsbFormat) (writeFn : ε → Nat → WriteM Unit) :
    Nat → List (MsbList ε) → WriteM Unit
  | i, [] => given (0 < i) () (msbFillNextParam format (i - 1) 0)
  | i, list :: rest => do
    let listStart ← peek position
    given (0 < i) () (msbFillNextParam format (i - 1) (Int64.ofNat listStart))
    msbEntryListWrite os list.version list.typeName (label format.base i) list.entries writeFn
    msbWriteLists os format writeFn (i + 1) rest

/-- What `sf_msbs_write_to_memory` does with its writer. -/
def msbWrite {ε : Type} (os : Win32) (format : MsbFormat) (writeFn : ε → Nat → WriteM Unit) (lists : List (MsbList ε)) :
    WriteM Unit := do
  msbCommonWriteHeader os
  msbWriteLists os format writeFn 0 lists

end Writing

end SoulsFormats
