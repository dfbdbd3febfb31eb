import SoulsFormats.Core.Layout

set_option autoImplicit false

/-! # Lists of goals

The reader and the writer of `luainfo.c`. The header tells the byte order and the number of the goals but
not their layout; the reader guesses that from a word or two behind the header. A record of a goal leads
to its name and to the name of its logic interrupt, which may be absent. -/

namespace SoulsFormats

open Bytes Fallible

/-- `sf_luainfo_goal_t`. -/
structure LuainfoGoal where
  id : Int32
  battleInterrupt : Bool
  logicInterrupt : Bool
  name : List UInt8
  logicInterruptName : Option (List UInt8)
deriving DecidableEq, Repr

/-- `sf_luainfo_t`. -/
structure Luainfo where
  bigEndian : Bool
  longFormat : Bool
  goals : List LuainfoGoal
  goalCapacity : Nat
deriving DecidableEq, Repr

def luainfoCreate (bigEndian longFormat : Bool) : Fallible Heap SfError Luainfo := do
  let _ ← Heap.alloc
  pure { bigEndian := bigEndian, longFormat := longFormat, goals := [], goalCapacity := 0 }

def luainfoReserveOne (info : Luainfo) : Fallible Heap SfError Luainfo :=
  if info.goals.length < info.goalCapacity then pure info
  else do
    let newCap := if info.goalCapacity ≠ 0 then info.goalCapacity * 2 else 8
    check (newCap ≤ SIZE_MAX / 8) .outOfRange
    let _ ← Heap.alloc
    pure { info with goalCapacity := newCap }

/-- `sf_luainfo_is`. -/
def luainfoIs (bytes : List UInt8) : Bool := bytes.take 4 = cstr "LUAI"

/-! ## Reading -/

section Reading

open BinaryReader

variable (os : Win32)

/-- What a record of a goal holds: its id, its flags and the offsets of its names. -/
structure LuainfoRecord where
  id : Int32
  battle : Bool
  logic : Bool
  nameOff : Int
  interruptOff : Int

def luainfoReadRecord (longFormat : Bool) : ReadM LuainfoRecord := do
  let id ← readI32
  if longFormat then do
    let battle ← readBool
    let logic ← readBool
    let padding ← readI16
    check (padding = 0) .unsupportedVersion
    let nameOff ← readI64
    let interruptOff ← readI64
    pure { id := id, battle := battle, logic := logic, nameOff := nameOff.toInt,
           interruptOff := interruptOff.toInt }
  else do
    let nameOff32 ← readU32
    let interruptOff32 ← readU32
    let battle ← readBool
    let logic ← readBool
    let padding ← readI16
    check (padding = 0) .unsupportedVersion
    pure { id := id, battle := battle, logic := logic, nameOff := nameOff32.toNat,
           interruptOff := interruptOff32.toNat }

def luainfoGetText (longFormat : Bool) (offset : Int) : ReadM (List UInt8) :=
  if longFormat then getUtf16 os offset else getShiftJis os offset

/-- The offset 0 stands for a name that is absent. -/
def luainfoGetInterrupt (longFormat : Bool) (offset : Int) : ReadM (Option (List UInt8)) :=
  if offset ≠ 0 then do
    let text ← luainfoGetText os longFormat offset
    pure (some text)
  else pure none

def luainfoReadGoal (longFormat : Bool) : ReadM LuainfoGoal := do
  let goal ← luainfoReadRecord longFormat
  let name ← luainfoGetText os longFormat goal.nameOff
  let interrupt ← luainfoGetInterrupt os longFormat goal.interruptOff
  let _ ← onHeap Heap.alloc
  pure { id := goal.id, battleInterrupt := goal.battle, logicInterrupt := goal.logic, name := name,
         logicInterruptName := interrupt }

/-- The byte order, as the version shows it to a little-endian reader. -/
def luainfoByteOrder (version : Int32) : ReadM Bool :=
  if version = 1 then pure false
  else do
    check (version = 0x01000000) .unsupportedVersion
    pure true

/-- The layout, as the probes show it. -/
def luainfoDetect (goalCount : Int32) : ReadM Bool :=
  if goalCount = 0 then fail .unsupportedVersion
  else if 2 ≤ goalCount then do
    let probe ← getI32 0x24
    pure (decide (probe = 0))
  else do
    let probeLong ← getI32 0x18
    if probeLong = 0x10 + 0x18 * 1 then pure true
    else do
      let probeShort ← getI32 0x14
      check (probeShort = 0x10 + 0x10 * 1) .unsupportedVersion
      pure false

/-- The byte order, the layout and the number of the goals. -/
def luainfoReadHeader : ReadM (Bool × Bool × Nat) := do
  assertAscii (cstr "LUAI")
  let version ← readI32
  let bigEndian ← luainfoByteOrder version
  setBigEndian bigEndian
  let goalCount ← readI32
  check (0 ≤ goalCount) .unsupportedVersion
  let headerPad ← readI32
  check (headerPad = 0) .unsupportedVersion
  let longFormat ← luainfoDetect goalCount
  pure (bigEndian, longFormat, goalCount.toInt.toNat)

/-- The loop over the goals. -/
def luainfoReadGoals : Nat → Luainfo → ReadM Luainfo
  | 0, info => pure info
  | n + 1, info => do
    let goal ← luainfoReadGoal os info.longFormat
    let info ← onHeap (luainfoReserveOne info)
    luainfoReadGoals n { info with goals := info.goals ++ [goal] }

def luainfoRead : ReadM Luainfo := do
  let (bigEndian, longFormat, goalCount) ← luainfoReadHeader
  let info ← onHeap (luainfoCreate bigEndian longFormat)
  luainfoReadGoals os goalCount info

/-- `sf_luainfo_read_from_memory`. -/
def luainfoReadFromMemory (flexible : Bool) (data : List UInt8) : Fallible Heap SfError Luainfo := do
  check (luainfoIs data) .badMagic
  onMemory data false flexible (luainfoRead os)

end Reading

/-! ## Writing -/

section Writing

open BinaryWriter

variable (os : Win32)

def luainfoNameLabel (index : Nat) : List UInt8 := label "NameOffset" index

def luainfoInterruptLabel (index : Nat) : List UInt8 := label "LogicInterruptNameOffset" index

def luainfoWriteGoal (longFormat : Bool) (index : Nat) (goal : LuainfoGoal) : WriteM Unit := do
  writeI32 goal.id
  if longFormat then do
    writeBool goal.battleInterrupt
    writeBool goal.logicInterrupt
    writeI16 0
    reserveI64 (luainfoNameLabel index)
    reserveI64 (luainfoInterruptLabel index)
  else do
    reserveU32 (luainfoNameLabel index)
    reserveU32 (luainfoInterruptLabel index)
    writeBool goal.battleInterrupt
    writeBool goal.logicInterrupt
    writeI16 0

def luainfoFill (longFormat : Bool) (name : List UInt8) (pos : Nat) : WriteM Unit :=
  if longFormat then fillI64 name (Int64.ofNat pos)
  else do
    check (pos < 2 ^ 32) .outOfRange
    fillU32 name (UInt32.ofNat pos)

def luainfoWriteText (longFormat : Bool) (text : List UInt8) : WriteM Unit :=
  if longFormat then writeUtf16 os (some text) true else writeShiftJis os (some text) true

/-- Fill an offset with the position and write the text there. -/
def luainfoWriteAt (longFormat : Bool) (name text : List UInt8) : WriteM Unit := do
  let pos ← peek position
  luainfoFill longFormat name pos
  luainfoWriteText os longFormat text

def luainfoWriteGoalStrings (longFormat : Bool) (index : Nat) (goal : LuainfoGoal) : WriteM Unit := do
  luainfoWriteAt os longFormat (luainfoNameLabel index) goal.name
  match goal.logicInterruptName with
  | none => luainfoFill longFormat (luainfoInterruptLabel index) 0
  | some interrupt => luainfoWriteAt os longFormat (luainfoInterruptLabel index) interrupt

def luainfoWriteBody (info : Luainfo) : WriteM Unit := do
  writeAscii os (some (cstr "LUAI")) false
  writeI32 1
  check (info.goals.length ≤ INT32_MAX) .outOfRange
  writeI32 (Int32.ofNat info.goals.length)
  writeI32 0
  forIndexed (luainfoWriteGoal info.longFormat) 0 info.goals
  forIndexed (luainfoWriteGoalStrings os info.longFormat) 0 info.goals
  pad 0x10

/-- `sf_luainfo_write_to_memory`. -/
def luainfoWriteToMemory (info : Luainfo) : Fallible Heap SfError (List UInt8) :=
  writeToMemory info.bigEndian (luainfoWriteBody os info)

end Writing

end SoulsFormats
