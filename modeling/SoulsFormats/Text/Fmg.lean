import SoulsFormats.Library.OpenAddressing
import SoulsFormats.Core.BinaryWriter

set_option autoImplicit false

/-! # FMG string containers

The reader and the writer of `fmg.c`. A file is a header, a table of groups of consecutive ids, a table
of string offsets and the strings; the writer sorts a view of the entries, pre-fills the offset table
and patches it once the strings are out. `fmgWriteBody` is `fmg_write_body`, and so on. -/

namespace SoulsFormats

open Bytes Fallible OpenAddressing

/-- `sf_fmg_version_t`. -/
inductive FmgVersion where
  | demonsSouls
  | darkSouls1
  | darkSouls3
deriving DecidableEq, Repr

def FmgVersion.byte : FmgVersion → UInt8
  | demonsSouls => 0
  | darkSouls1 => 1
  | darkSouls3 => 2

/-- `version_is_known`, with the version it finds. -/
def fmgVersionOf (v : UInt8) : Option FmgVersion :=
  if v = 0 then some .demonsSouls
  else if v = 1 then some .darkSouls1
  else if v = 2 then some .darkSouls3
  else none

/-- `sf_fmg_entry_t`. A deleted entry has no text, which is not the empty text. -/
structure FmgEntry where
  id : Int32
  textUtf8 : Option (List UInt8)
deriving DecidableEq, Repr

/-- `sf_fmg_t`. -/
structure Fmg where
  version : FmgVersion
  bigEndian : Bool
  unicode : Bool
  hasMd5 : Bool
  reuseOffsets : Bool
  entries : List FmgEntry
  entryCapacity : Nat
deriving DecidableEq, Repr

/-- The "wide" mode of the layout. -/
def FmgVersion.wide (v : FmgVersion) : Bool := v = .darkSouls3

/-- The byte after the unicode flag. -/
def FmgVersion.aux (v : FmgVersion) : UInt8 := if v = .demonsSouls then 0xFF else 0

/-- The width of an entry of the offset table. -/
def FmgVersion.perOffset (v : FmgVersion) : Nat := if v.wide then 8 else 4

def fmgAllocBlank : Fallible Heap SfError Fmg := do
  let _ ← Heap.alloc
  pure { version := .darkSouls1, bigEndian := false, unicode := true, hasMd5 := false,
         reuseOffsets := false, entries := [], entryCapacity := 0 }

/-- The doubling loop of `entries_reserve`. -/
def entriesCap (need : Nat) : Nat → Nat → Option Nat
  | 0, _ => none
  | fuel + 1, newCap =>
    if newCap < need then
      if SIZE_MAX / 2 < newCap then none else entriesCap need fuel (newCap * 2)
    else some newCap

def entriesReserve (fmg : Fmg) (need : Nat) : Fallible Heap SfError Fmg :=
  if need ≤ fmg.entryCapacity then pure fmg
  else
    match entriesCap need 65 (if fmg.entryCapacity ≠ 0 then fmg.entryCapacity * 2 else 16) with
    | none => fail .outOfRange
    | some newCap => do
      let _ ← Heap.alloc
      pure { fmg with entryCapacity := newCap }

def entriesAppend (fmg : Fmg) (id : Int32) (textUtf8 : Option (List UInt8)) :
    Fallible Heap SfError Fmg := do
  let fmg ← entriesReserve fmg (fmg.entries.length + 1)
  pure { fmg with entries := fmg.entries ++ [⟨id, textUtf8⟩] }

/-! ## Reading -/

section Reading

open BinaryReader

variable (os : Win32)

/-- The MD5 prefix shifts the offsets of the body. -/
def fmgShift (shifted : Bool) (off : Int) : ReadM Int :=
  if shifted then int64Add off 16 else pure off

/-- The text of one entry: an offset of 0 stands for a deleted one. -/
def fmgReadText (unicode : Bool) (stringOffset : Int) : ReadM (Option (List UInt8)) :=
  if 0 < stringOffset then
    if unicode then do
      let text ← getUtf16 os stringOffset
      pure (some text)
    else do
      let text ← getShiftJis os stringOffset
      pure (some text)
  else pure none

/-- The inner loop, over the `n` entries of a group from the `j`-th on. -/
def fmgReadEntries (firstId : Int32) : Nat → Nat → Fmg → ReadM Fmg
  | 0, _, fmg => pure fmg
  | n + 1, j, fmg => do
    let off ← readVarint
    let stringOffset ← fmgShift (fmg.hasMd5 && decide (0 < off.toInt)) off.toInt
    let textUtf8 ← fmgReadText os fmg.unicode stringOffset
    let fmg ← onHeap (entriesAppend fmg (firstId + Int32.ofNat j) textUtf8)
    fmgReadEntries firstId n (j + 1) fmg

/-- An assertion that only the wide layout makes. -/
def assertWide (wide : Bool) (v : Int32) : ReadM Unit :=
  if wide then do
    let _ ← assertI32 [v]
    pure ()
  else pure ()

/-- The outer loop, over the groups. -/
def fmgReadGroups (stringOffsetsOffset : Int) : Nat → Fmg → ReadM Fmg
  | 0, fmg => pure fmg
  | n + 1, fmg => do
    let offsetIndex ← readI32
    let firstId ← readI32
    let lastId ← readI32
    assertWide fmg.version.wide 0
    check (firstId ≤ lastId) .outOfRange
    check (0 ≤ offsetIndex) .outOfRange
    let span := lastId.toInt - firstId.toInt + 1
    check (0 < span) .outOfRange
    let tablePos ← int64Add stringOffsetsOffset (offsetIndex.toInt * fmg.version.perOffset)
    stepIn tablePos
    let inner ← attempt (fmgReadEntries os firstId span.toNat 0 fmg)
    let out ← attempt stepOut
    match inner, out with
    | .error err, _ => fail err
    | .ok _, .error err => fail err
    | .ok fmg, .ok () => fmgReadGroups stringOffsetsOffset n fmg

/-- The detection of the MD5 prefix, which is skipped and not verified. -/
def fmgReadMd5Prefix : ReadM Bool := do
  let firstByte ← getU8 0
  if firstByte ≠ 0 then do
    skip 16
    pure true
  else pure false

/-- The header up to the group table: the container so far, the number of groups and the position of
    the offset table. -/
def fmgReadHeader : ReadM (Fmg × Int32 × Int) := do
  let fmg ← onHeap fmgAllocBlank
  let hasMd5 ← fmgReadMd5Prefix
  let _ ← assertU8 [0]
  let bigEndian ← readBool
  setBigEndian bigEndian
  let versionByte ← readU8
  match fmgVersionOf versionByte with
  | none => fail .unsupportedVersion
  | some version => do
    let _ ← assertU8 [0]
    setVarintLong version.wide
    let _ ← readI32
    let unicode ← readBool
    let _ ← assertU8 [version.aux]
    let _ ← assertU8 [0]
    let _ ← assertU8 [0]
    let groupCount ← readI32
    check (0 ≤ groupCount) .outOfRange
    let _ ← readI32
    assertWide version.wide 0xFF
    let off ← readVarint
    let stringOffsetsOffset ← fmgShift hasMd5 off.toInt
    let _ ← assertVarint [0]
    pure ({ fmg with hasMd5 := hasMd5, bigEndian := bigEndian, version := version,
                     unicode := unicode }, groupCount, stringOffsetsOffset)

def fmgRead : ReadM Fmg := do
  let (fmg, groupCount, stringOffsetsOffset) ← fmgReadHeader
  fmgReadGroups os stringOffsetsOffset groupCount.toInt.toNat fmg

/-- `sf_fmg_read_from_memory`. -/
def fmgReadFromMemory (flexible : Bool) (data : List UInt8) : Fallible Heap SfError Fmg :=
  onMemory data false flexible (fmgRead os)

end Reading

/-! ## Writing -/

section Writing

open BinaryWriter

variable (os : Win32)

/-- `compare_sort_view_by_id`; the view is a shallow copy, so it shares the type of the entries. -/
def compareSortViewById (a b : FmgEntry) : Int :=
  if a.id < b.id then -1 else if b.id < a.id then 1 else 0

def fmgTextIsAscii (s : List UInt8) : Bool := (cText s).all fun p => p < 0x80

def fmgWriteUtf16Ascii (bigEndian : Bool) (s : List UInt8) : WriteM Unit := do
  let len := (cText s).length
  check (len ≤ SIZE_MAX / 2 - 1) .outOfRange
  let total := (len + 1) * 2
  -- a short string fits the stack buffer
  if 512 < total then do
    let _ ← onHeap Heap.alloc
  writeBytes (((cText s).flatMap fun p => if bigEndian then [0, p] else [p, 0]) ++ [0, 0])

def fmgWriteSjisAscii (s : List UInt8) : WriteM Unit := writeBytes (cText s ++ [0])

def writeOneString (unicode : Bool) (textUtf8 : List UInt8) : WriteM Unit := do
  let w ← state
  if fmgTextIsAscii textUtf8 then
    if unicode then fmgWriteUtf16Ascii w.bigEndian textUtf8 else fmgWriteSjisAscii textUtf8
  else if unicode then writeUtf16 os (some textUtf8) true
  else writeShiftJis os (some textUtf8) true

/-- The result is `offsets_out`. -/
def fmgEmitStringsSimple (unicode : Bool) : List FmgEntry → WriteM (List Int64)
  | [] => pure []
  | v :: view =>
    match v.textUtf8 with
    | none => do
      let offsets ← fmgEmitStringsSimple unicode view
      pure (0 :: offsets)
    | some text => do
      let pos ← peek position
      writeOneString os unicode text
      let offsets ← fmgEmitStringsSimple unicode view
      pure (Int64.ofNat pos :: offsets)

/-- `sf_fmg_dedup_slot_t`, when its text is set. -/
structure FmgDedupSlot where
  hash : UInt64
  offset : Int64
  text : List UInt8
deriving DecidableEq, Repr

/-- FNV-1a-64. -/
def fmgTextHash (s : List UInt8) : UInt64 :=
  (cText s).foldl (fun h p => (h ^^^ p.toUInt64) * 0x100000001B3) 0xCBF29CE484222325

/-- The loop that sizes the table. -/
def fmgDedupCap (need : Nat) : Nat → Nat → Option Nat
  | 0, _ => none
  | fuel + 1, cap =>
    if cap < need then
      if SIZE_MAX / 2 < cap then none else fmgDedupCap need fuel (cap * 2)
    else some cap

/-- The loop over the view; the walk over the slots ends at a free one or at one with this text. -/
def fmgDedupStrings (unicode : Bool) :
    List FmgEntry → List (Slot FmgDedupSlot) → WriteM (List Int64)
  | [], _ => pure []
  | v :: view, slots =>
    match v.textUtf8 with
    | none => do
      let offsets ← fmgDedupStrings unicode view slots
      pure (0 :: offsets)
    | some text =>
      let h := fmgTextHash text
      let mask := slots.length - 1
      let same := fun slot : FmgDedupSlot => slot.hash == h && cText slot.text == cText text
      match lookup slots mask same slots.length (h.toNat &&& mask) with
      | none => fail .nonTermination
      | some k =>
        match slots[k]? with
        | some (.occupied slot) => do
          let offsets ← fmgDedupStrings unicode view slots
          pure (slot.offset :: offsets)
        | _ => do
          let pos ← peek position
          writeOneString os unicode text
          let offsets ← fmgDedupStrings unicode view
            (slots.set k (.occupied ⟨h, Int64.ofNat pos, text⟩))
          pure (Int64.ofNat pos :: offsets)

def fmgEmitStringsDedup (unicode : Bool) (view : List FmgEntry) : WriteM (List Int64) :=
  match fmgDedupCap (view.length * 2) 65 16 with
  | none => fail .outOfRange
  | some cap => do
    let _ ← onHeap Heap.alloc
    fmgDedupStrings os unicode view (List.replicate cap .empty)

/-- Whether the entry behind `v`, if there is one, has the next id; the sum is an `int32_t`. -/
def fmgFollows (v : FmgEntry) : List FmgEntry → WriteM Bool
  | [] => pure false
  | next :: _ => do
    check (v.id ≠ Int32.maxValue) .undefinedBehaviour
    pure (next.id == v.id + 1)

/-- Both loops over the view, from its index `i` on; `inGroup` says that the inner loop, which looks
    for the last entry of a group, is running. The result is the number of groups. -/
def fmgWriteGroups (wide : Bool) : Nat → Bool → Int32 → List FmgEntry → WriteM Int32
  | _, _, groupCount, [] => pure groupCount
  | i, inGroup, groupCount, v :: view => do
    if ¬ inGroup then do
      writeI32 (Int32.ofNat i)
      writeI32 v.id
    let follows ← fmgFollows v view
    if follows then
      fmgWriteGroups wide (i + 1) true groupCount view
    else do
      writeI32 v.id
      if wide then writeI32 0
      fmgWriteGroups wide (i + 1) false (groupCount + 1) view

/-- The header, with its reservations. -/
def fmgWriteHeader (fmg : Fmg) : WriteM Unit := do
  setBigEndian fmg.bigEndian
  setVarintLong fmg.version.wide
  writeU8 0
  writeBool fmg.bigEndian
  writeU8 fmg.version.byte
  writeU8 0
  reserveI32 (cstr "FileSize")
  writeBool fmg.unicode
  writeU8 fmg.version.aux
  writeU8 0
  writeU8 0
  check (fmg.entries.length ≤ INT32_MAX) .outOfRange
  reserveI32 (cstr "GroupCount")
  writeI32 (Int32.ofNat fmg.entries.length)
  if fmg.version.wide then writeI32 0xFF
  reserveVarint (cstr "StringOffsets")
  writeVarint 0

variable (qs : Qsort)

/-- The sorted view; there is none for an empty container. -/
def fmgSortView (fmg : Fmg) : WriteM (List FmgEntry) :=
  if 0 < fmg.entries.length then do
    let _ ← onHeap Heap.alloc
    pure (qs.sort compareSortViewById fmg.entries)
  else pure []

/-- The back-patching of the whole offset table. -/
def fmgPatchOffsets (stringTablePos : Nat) (offsets : List Int64) : WriteM Unit := do
  stepIn stringTablePos
  let r ← attempt (writeEach writeVarint offsets)
  let r2 ← attempt stepOut
  match r, r2 with
  | .error err, _ => fail err
  | .ok _, .error err => fail err
  | .ok _, .ok _ => pure ()

def fmgEmitStrings (fmg : Fmg) (view : List FmgEntry) : WriteM (List Int64) :=
  if fmg.reuseOffsets then fmgEmitStringsDedup os fmg.unicode view
  else fmgEmitStringsSimple os fmg.unicode view

/-- From the pre-filled offset table to its back-patching. -/
def fmgWriteStrings (fmg : Fmg) (view : List FmgEntry) (stringTablePos : Nat) : WriteM Unit := do
  if 0 < fmg.entries.length then do
    check (fmg.entries.length ≤ SIZE_MAX / fmg.version.perOffset) .outOfRange
    writePattern (fmg.entries.length * fmg.version.perOffset) 0xFE
    let _ ← onHeap Heap.alloc
  let offsets ← fmgEmitStrings os fmg view
  if 0 < fmg.entries.length then fmgPatchOffsets stringTablePos offsets

def fmgWriteBody (fmg : Fmg) : WriteM Unit := do
  fmgWriteHeader fmg
  let view ← fmgSortView qs fmg
  let groupCount ← fmgWriteGroups fmg.version.wide 0 false 0 view
  fillI32 (cstr "GroupCount") groupCount
  let stringTablePos ← peek position
  fillVarint (cstr "StringOffsets") (Int64.ofNat stringTablePos)
  fmgWriteStrings os fmg view stringTablePos
  let pos ← peek position
  fillI32 (cstr "FileSize") (Int32.ofNat pos)

/-- `fmg_estimate_output_size`; a sum that does not fit a `size_t` ends the estimate. -/
def fmgEstimateOutputSize (fmg : Fmg) : Nat :=
  let est := 64 + (if fmg.hasMd5 then 16 else 0)
  if fmg.entries.length = 0 then est
  else
    let groupEntrySize := if fmg.version.wide then 16 else 12
    if SIZE_MAX / groupEntrySize < fmg.entries.length then SIZE_MAX
    else if SIZE_MAX / fmg.version.perOffset < fmg.entries.length then SIZE_MAX
    else
      let tables :=
        est + fmg.entries.length * groupEntrySize + fmg.entries.length * fmg.version.perOffset
      fmg.entries.foldl (fun est e =>
        match e.textUtf8 with
        | none => est
        | some text =>
          let len := (cText text).length
          min SIZE_MAX (est + if fmg.unicode then (len + 1) * 2 else len + 1)) tables

/-- What `fmg_serialize` does with its writer. -/
def fmgSerializeBody (fmg : Fmg) : WriteM (List UInt8) := do
  let _ ← onHeap Heap.alloc
  fmgWriteBody os qs fmg
  finish
  peek BinaryWriter.content

/-- `fmg_serialize`, which is `sf_fmg_write_to_memory`; `md5` is `sfi_md5_hash`. -/
def fmgSerialize (md5 : List UInt8 → Except SfError (Vector UInt8 16)) (fmg : Fmg) :
    Fallible Heap SfError (List UInt8) := do
  let _ ← Heap.alloc
  let body ← fun heap =>
    let stream :=
      -- the room is only a hint: a failure is ignored
      if fmgEstimateOutputSize fmg ≠ SIZE_MAX then
        (OStream.reserve (fmgEstimateOutputSize fmg) (OStream.openMemory heap)).2
      else OStream.openMemory heap
    let (r, w) := fmgSerializeBody os qs fmg (createOver stream fmg.bigEndian)
    (r, w.stream.heap)
  if ¬ fmg.hasMd5 then pure body
  else do
    let hash ← lift (md5 body)
    check (body.length ≤ SIZE_MAX - 16) .outOfRange
    let _ ← Heap.alloc
    pure (hash.toList ++ body)

end Writing

end SoulsFormats
