import SoulsFormats.Core.BinaryWriter

set_option autoImplicit false

/-! # NVA navmesh areas

The model of `nva.c`: eight or nine sections, each with a payload of entries of one size. The writer pads a
payload with `0xFF` to sixteen bytes and counts the padding; the reader divides the payload by the number of
entries to learn their size. -/

namespace SoulsFormats

open Bytes Fallible

/-- `sf_nva_version_t`. -/
inductive NvaVersion where
  | oldBloodborne | darkSouls3 | sekiro
deriving DecidableEq, Repr

def NvaVersion.toUInt32 : NvaVersion → UInt32
  | .oldBloodborne => 3
  | .darkSouls3 => 4
  | .sekiro => 5

def NvaVersion.ofUInt32? (v : UInt32) : Option NvaVersion :=
  [NvaVersion.oldBloodborne, .darkSouls3, .sekiro].find? fun version => version.toUInt32 = v

/-- The number of sections, as both the reader and the writer have it. -/
def NvaVersion.sectionCount : NvaVersion → Nat
  | .oldBloodborne => 8
  | _ => 9

/-- `sf_nva_section_t`; `entries` is the block of the entries, of which `entryCount * entrySize` bytes are
    used, and `none` a null pointer. -/
structure NvaSection where
  index : Int32
  version : Int32
  entries : Option (List UInt8)
  entrySize : Nat
  entryCount : Nat
  entryCapacity : Nat
deriving DecidableEq, Repr

/-- The bytes of the entries. -/
def NvaSection.entryBytes (s : NvaSection) : List UInt8 := s.entries.getD []

/-- `sf_nva_t`. -/
structure Nva where
  version : NvaVersion
  sections : List NvaSection
deriving DecidableEq, Repr

/-! ## Building -/

/-- The version that `sf_nva_create_empty` gives a section. -/
def nvaSectionVersion (version : NvaVersion) (i : Nat) : Int32 :=
  if i = 0 then
    match version with
    | .oldBloodborne => 2
    | .darkSouls3 => 2
    | .sekiro => 4
  else if i = 8 then (if version = .sekiro then 2 else 1)
  else 1

/-- `sf_nva_create_empty`. -/
def nvaCreateEmpty (version : NvaVersion) : Fallible Heap SfError Nva := do
  let _ ← Heap.alloc
  let _ ← Heap.alloc
  pure ⟨version, (List.range version.sectionCount).map fun i =>
    ⟨Int32.ofNat i, nvaSectionVersion version i, none, 0, 0, 0⟩⟩

/-- The first entry sets the size of the others. -/
def nvaTakeEntrySize (n : Nat) : Fallible (NvaSection × Heap) SfError Unit := do
  let (s, _) ← state
  if s.entrySize = 0 then update fun (s, h) => ({ s with entrySize := n }, h)
  else check (s.entrySize = n) .invalidArg

/-- Room for one more entry. -/
def nvaGrowEntries : Fallible (NvaSection × Heap) SfError Unit := do
  let (s, _) ← state
  if s.entryCapacity < s.entryCount + 1 then do
    let _ ← zoom Prod.snd (fun h p => (p.1, h)) Heap.alloc
    let cap := max (if s.entryCapacity = 0 then 4 else s.entryCapacity * 2) (s.entryCount + 1)
    update fun (s, h) => ({ s with entries := some s.entryBytes, entryCapacity := cap }, h)
  else pure ()

/-- `sf_nva_section_append_entry`. -/
def nvaSectionAppendEntry (data : List UInt8) : Fallible (NvaSection × Heap) SfError Unit :=
  if data.length = 0 then pure ()
  else do
    nvaTakeEntrySize data.length
    nvaGrowEntries
    update fun (s, h) =>
      ({ s with entries := some (s.entryBytes ++ data), entryCount := s.entryCount + 1 }, h)

/-- What the call makes of a section, whether it succeeds or not. -/
def NvaSection.after (s : NvaSection) (data : List UInt8) (heap : Heap) : NvaSection :=
  (nvaSectionAppendEntry data (s, heap)).2.1

/-- `default_entry_size`. -/
def nvaDefaultEntrySize (sectionIndex : Int32) (version : NvaVersion) : Nat :=
  if sectionIndex = 0 then
    match version with
    | .oldBloodborne => 64
    | .darkSouls3 => 64
    | .sekiro => 144
  else if sectionIndex = 3 then 0
  else if sectionIndex = 4 then 32
  else if sectionIndex = 8 then (if version = .sekiro then 36 else 16)
  else 16

/-! ## Reading -/

section Reading

open BinaryReader

/-- The entries of a section: their size and their bytes. -/
def nvaReadEntries (payload count : Nat) : ReadM (Nat × List UInt8) := do
  let entrySize := payload / count
  check (entrySize * count ≤ payload) .outOfRange
  let _ ← onHeap Heap.alloc
  let entries ← readBytes (entrySize * count)
  pure (entrySize, entries)

/-- A round of the loop over the sections in `sf_nva_read_from_memory`. -/
def nvaReadSection (i : Nat) : ReadM NvaSection := do
  let index ← readI32
  let version ← readI32
  let length ← readI32
  let count ← readI32
  check (index.toInt = i) .badMagic
  check (16 ≤ length.toInt ∧ 0 ≤ count.toInt) .outOfRange
  let start ← peek position
  let payload := (length.toInt - 16).toNat
  let read ← given (0 < count.toInt ∧ 0 < payload) none do
    let read ← nvaReadEntries payload count.toInt.toNat
    pure (some read)
  let pos ← peek position
  skip ((start : Int) + payload - pos)
  match read with
  | none => pure ⟨index, version, none, 0, 0, 0⟩
  | some (size, entries) => pure ⟨index, version, some entries, size, count.toInt.toNat, count.toInt.toNat⟩

def nvaReadSections : Nat → Nat → ReadM (List NvaSection)
  | 0, _ => pure []
  | n + 1, i => do
    let s ← nvaReadSection i
    let rest ← nvaReadSections n (i + 1)
    pure (s :: rest)

/-- What `sf_nva_read_from_memory` does with its reader. -/
def nvaRead : ReadM Nva := do
  assertAscii (cstr "NVMA")
  let version ← readU32
  match NvaVersion.ofUInt32? version with
  | none => fail .unsupportedVersion
  | some version => do
    let _ ← readU32
    let sectionCount ← readI32
    check (sectionCount.toInt = version.sectionCount) .badMagic
    let _ ← onHeap Heap.alloc
    let _ ← onHeap Heap.alloc
    let sections ← nvaReadSections version.sectionCount 0
    pure ⟨version, sections⟩

/-- `sf_nva_read_from_memory`. -/
def nvaReadFromMemory (flexible : Bool) (data : List UInt8) : Fallible Heap SfError Nva :=
  onMemory data false flexible nvaRead

end Reading

/-! ## Writing -/

section Writing

open BinaryWriter

/-- The size with which the writer counts. -/
def NvaSection.writtenSize (s : NvaSection) (version : NvaVersion) : Nat :=
  if s.entrySize = 0 then nvaDefaultEntrySize s.index version else s.entrySize

/-- The payload, of which no more can be written than the block of the entries has. -/
def nvaWriteEntries (s : NvaSection) (payload : Nat) : WriteM Unit := do
  check (payload ≤ s.entryBytes.length) .undefinedBehaviour
  writeBytes (s.entryBytes.take payload)

/-- A round of the loop over the sections in `sf_nva_write_to_memory`. -/
def nvaWriteSection (version : NvaVersion) (i : Nat) (s : NvaSection) : WriteM Unit := do
  check (s.entryCount ≤ INT32_MAX) .outOfRange
  let payload := s.writtenSize version * s.entryCount
  writeI32 s.index
  writeI32 s.version
  check ((label "NvaSecLen_" i).length < 24) .internal
  reserveI32 (label "NvaSecLen_" i)
  writeI32 (Int32.ofNat s.entryCount)
  let start ← peek position
  given (0 < payload ∧ s.entries.isSome = true) () (nvaWriteEntries s payload)
  let pos ← peek position
  writeEach writeU8 (List.replicate (if pos % 0x10 ≠ 0 then 0x10 - pos % 0x10 else 0) 0xFF)
  let fin ← peek position
  check (fin - start + 16 ≤ INT32_MAX) .outOfRange
  fillI32 (label "NvaSecLen_" i) (Int32.ofNat (fin - start + 16))

/-- What `sf_nva_write_to_memory` does with its writer. -/
def nvaWrite (os : Win32) (nva : Nva) : WriteM Unit := do
  writeAscii os (some (cstr "NVMA")) false
  writeU32 nva.version.toUInt32
  reserveU32 (cstr "FileSize")
  writeI32 (Int32.ofNat nva.version.sectionCount)
  forIndexed (nvaWriteSection nva.version) 0 nva.sections
  let size ← peek position
  check (size ≤ UINT32_MAX) .outOfRange
  fillU32 (cstr "FileSize") (UInt32.ofNat size)

/-- `sf_nva_write_to_memory`. -/
def nvaWriteToMemory (os : Win32) (nva : Nva) : Fallible Heap SfError (List UInt8) :=
  writeToMemory false (nvaWrite os nva)

end Writing

end SoulsFormats
