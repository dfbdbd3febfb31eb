import SoulsFormats.Core.Result

set_option autoImplicit false

/-! # The buffer of `mqb.c`

`mqb.c` has a reader of its own. It jumps by setting its position, which may be anywhere: only a read looks at
the bounds. Texts are stored as UTF-16; in memory each unit is spelled in up to three bytes, a surrogate like
any other unit. -/

namespace SoulsFormats

open Bytes Fallible

/-! ## Texts -/

/-- What `read_utf16_units` makes of one unit. -/
def mqbSpell (ch : UInt16) : List UInt8 :=
  let c := ch.toNat
  if c < 0x80 then [UInt8.ofNat c]
  else if c < 0x800 then [UInt8.ofNat (0xC0 ||| (c >>> 6)), UInt8.ofNat (0x80 ||| (c &&& 0x3F))]
  else [UInt8.ofNat (0xE0 ||| (c >>> 12)), UInt8.ofNat (0x80 ||| ((c >>> 6) &&& 0x3F)),
    UInt8.ofNat (0x80 ||| (c &&& 0x3F))]

def mqbText (us : List UInt16) : List UInt8 := us.flatMap mqbSpell

/-! ## `rdr_t` -/

/-- `rdr_t`; `heap` is what the allocator will answer. -/
structure Rdr where
  data : List UInt8
  pos : Nat
  be : Bool
  var64 : Bool
  heap : Heap
deriving DecidableEq, Repr

abbrev RdrM := Fallible Rdr SfError

/-- What an `int32_t` is as a `size_t`. -/
def sizeOfInt32 (v : Int32) : Nat := (v.toInt % 2 ^ 64).toNat

namespace Rdr

/-- `sf_xalloc`. -/
def alloc : RdrM Unit := do
  let _ ← zoom Rdr.heap (fun h r => { r with heap := h }) Heap.alloc
  pure ()

/-- An assignment to `pos`. -/
def jump (pos : Nat) : RdrM Unit := update fun r => { r with pos := pos }

/-- `read_exact`. -/
def readExact (n : Nat) : RdrM (List UInt8) := do
  let r ← state
  check (n ≤ r.data.length ∧ r.pos ≤ r.data.length - n) .truncated
  jump (r.pos + n)
  pure ((r.data.drop r.pos).take n)

/-- The word that `n` bytes hold, swapped for a big-endian file. -/
def readWord (n : Nat) : RdrM Nat := do
  let bs ← readExact n
  let be ← peek Rdr.be
  pure (if be then bswap n (leNat bs) else leNat bs)

def readU8 : RdrM UInt8 := do
  let bs ← readExact 1
  pure (bs.headD 0)

def readU16 : RdrM UInt16 := do
  let v ← readWord 2
  pure (UInt16.ofNat v)

def readU32 : RdrM UInt32 := do
  let v ← readWord 4
  pure (UInt32.ofNat v)

def readU64 : RdrM UInt64 := do
  let v ← readWord 8
  pure (UInt64.ofNat v)

def readI32 : RdrM Int32 := do
  let v ← readU32
  pure v.toInt32

def readI64 : RdrM Int64 := do
  let v ← readU64
  pure v.toInt64

def readF32 : RdrM UInt32 := readU32

def readVar : RdrM Nat := do
  let r ← state
  if r.var64 then do
    let v ← readU64
    pure v.toNat
  else do
    let v ← readU32
    pure v.toNat

def assertI32 (expected : Int32) : RdrM Unit := do
  let v ← readI32
  check (v = expected) .badMagic

def assertI64 (expected : Int64) : RdrM Unit := do
  let v ← readI64
  check (v = expected) .badMagic

/-- The first loop of `read_utf16_units`; the second looks at the same units again. -/
def readUnits : Nat → RdrM (List UInt16)
  | 0 => pure []
  | n + 1 => do
    let ch ← readU16
    if ch = 0 then pure []
    else do
      let us ← readUnits n
      pure (ch :: us)

def readUtf16Units (units : Nat) : RdrM (List UInt8) := do
  let start ← peek Rdr.pos
  let us ← readUnits units
  jump (start + units * 2)
  alloc
  pure (mqbText us)

def readFixstrW (bytes : Nat) : RdrM (List UInt8) := do
  check (bytes % 2 = 0) .badMagic
  let r ← state
  check (bytes ≤ r.data.length ∧ r.pos ≤ r.data.length - bytes) .truncated
  readUtf16Units (bytes / 2)

/-- The loop of `read_utf16_z_at`: how many units there are up to a terminator or the end of the data. -/
def unitsUpTo (be : Bool) : List UInt8 → Nat
  | a :: b :: rest => if wordNat be [a, b] = 0 then 1 else unitsUpTo be rest + 1
  | _ => 0

def readUtf16ZAt (offset : Nat) : RdrM (List UInt8) := do
  let r ← state
  check (offset < r.data.length) .truncated
  let units := unitsUpTo r.be (r.data.drop offset)
  check (offset + units * 2 ≤ r.data.length ∧ units ≠ 0) .truncated
  jump offset
  let s ← readUtf16Units units
  jump r.pos
  pure s

/-- A loop that appends to an array, for which `mqb_grow_ptrs` and `mqb_grow_bytes` make `room`. The element's
    index is how many there are already. -/
def readGrown {α : Type} (first : Nat) (elem : Nat → RdrM Unit → RdrM α) : Nat → Nat → Nat → RdrM (List α)
  | 0, _, _ => pure []
  | n + 1, count, cap => do
    let v ← elem count (given (cap ≤ count) () alloc)
    let vs ← readGrown first elem n (count + 1) (if count < cap then cap else if cap = 0 then first else cap * 2)
    pure (v :: vs)

/-- A loop over an array that has its size. -/
def readEach {α : Type} (elem : RdrM α) : Nat → RdrM (List α)
  | 0 => pure []
  | n + 1 => do
    let v ← elem
    let vs ← readEach elem n
    pure (v :: vs)

end Rdr

end SoulsFormats
