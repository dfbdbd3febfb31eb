import SoulsFormats.Core.BinaryWriter

set_option autoImplicit false

/-! # Event scripts

The reader and the writer of `emevd.c` and its four helpers. A file is a header with the offsets of its
sections, the events, their instructions, the layers that these share, the arguments, the parameters,
the linked files and the strings. An event finds its instructions and parameters by offsets into their
sections, an instruction its arguments and its layer. What the source calls `emevd_read_header` or
`sfi_emevd_event_write` is `emevdReadHeader` or `emevdEventWrite` here, and so on. -/

namespace SoulsFormats

open Bytes Fallible

/-- `INT64_MAX`. -/
def INT64_MAX : Nat := 2 ^ 63 - 1

/-- `sf_emevd_format_t`. -/
inductive EmevdFormat where
  | darkSouls1 | darkSouls1Be | bloodborne | darkSouls3 | sekiro
deriving DecidableEq, Repr

/-- The number of the enumerator, by which formats are compared. -/
def EmevdFormat.value : EmevdFormat → Nat
  | darkSouls1 => 0
  | darkSouls1Be => 1
  | bloodborne => 2
  | darkSouls3 => 3
  | sekiro => 4

def EmevdFormat.before (a b : EmevdFormat) : Bool := a.value < b.value

/-- `sf_emevd_rest_behavior_t`. -/
inductive EmevdRestBehavior where
  | default | restart | finish
deriving DecidableEq, Repr

def EmevdRestBehavior.value : EmevdRestBehavior → UInt32
  | default => 0
  | restart => 1
  | finish => 2

def emevdRestBehaviorOf (v : UInt32) : EmevdRestBehavior :=
  if v = 0 then .default else if v = 1 then .restart else .finish

/-- `sf_emevd_parameter_t`. -/
structure EmevdParameter where
  instructionIndex : Int64
  targetStartByte : Int64
  sourceStartByte : Int64
  byteCount : Int32
  unkId : Int32
deriving DecidableEq, Repr

/-- `sf_emevd_instruction_t`; the layer is its mask, where `has_layer` is set. -/
structure EmevdInstruction where
  bank : Int32
  id : Int32
  argData : List UInt8
  layer : Option UInt32
deriving DecidableEq, Repr

/-- `sf_emevd_event_t`. -/
structure EmevdEvent where
  id : Int64
  restBehavior : EmevdRestBehavior
  instructions : List EmevdInstruction
  parameters : List EmevdParameter
deriving DecidableEq, Repr

/-- `sf_emevd_t`. -/
structure Emevd where
  format : EmevdFormat
  bigEndian : Bool
  is64Bit : Bool
  events : List EmevdEvent
  linkedFileOffsets : List Int64
  stringData : List UInt8
deriving DecidableEq, Repr

/-- `sf_emevd_offsets_t`. -/
structure EmevdOffsets where
  events : Int
  instructions : Int
  layers : Int
  parameters : Int
  linkedFiles : Int
  arguments : Int
  strings : Int
deriving DecidableEq, Repr

/-- `sizeof` of an instruction and of a parameter. -/
def emevdEntrySize : Nat := 32

/-- `sizeof(sf_emevd_event_t)`. -/
def emevdEventSize : Nat := 56

/-! ## Reading -/

section Reading

open BinaryReader

def emevdI64ToSize (value : Int64) : ReadM Nat := do
  check (0 ≤ value) .outOfRange
  pure value.toInt.toNat

/-- The allocation of an array of `count` elements, which an empty one does not need. -/
def emevdAllocArray (count elemSize : Nat) : ReadM Unit :=
  if count = 0 then pure ()
  else do
    check (count ≤ SIZE_MAX / elemSize) .outOfRange
    let _ ← onHeap Heap.alloc
    pure ()

def emevdParameterRead : ReadM EmevdParameter := do
  let instructionIndex ← readVarint
  let targetStartByte ← readVarint
  let sourceStartByte ← readVarint
  let byteCount ← readI32
  let unkId ← readI32
  pure { instructionIndex := instructionIndex, targetStartByte := targetStartByte,
         sourceStartByte := sourceStartByte, byteCount := byteCount, unkId := unkId }

def emevdLayerRead : ReadM UInt32 := do
  let _ ← assertI32 [2]
  let mask ← readU32
  let _ ← assertVarint [0]
  let _ ← assertVarint [-1]
  let _ ← assertVarint [1]
  pure mask

/-- The offset of the layer, whose width depends on the format. -/
def emevdReadLayerOffset (format : EmevdFormat) : ReadM Int :=
  if format.before .darkSouls3 then do
    let layerOffset ← readI32
    let _ ← assertI32 [0]
    pure layerOffset.toInt
  else do
    let layerOffset ← readI64
    pure layerOffset.toInt

def emevdReadArgs (offsets : EmevdOffsets) (size : Nat) (argsOffset : Int64) : ReadM (List UInt8) :=
  if 0 < size then do
    let _ ← onHeap Heap.alloc
    let off ← int64Add offsets.arguments argsOffset.toInt
    getBytes off size
  else pure []

def emevdReadLayer (offsets : EmevdOffsets) (layerOffset : Int) : ReadM (Option UInt32) :=
  if layerOffset ≠ -1 then do
    let off ← int64Add offsets.layers layerOffset
    let mask ← defineGet off emevdLayerRead
    pure (some mask)
  else pure none

def emevdInstructionRead (format : EmevdFormat) (offsets : EmevdOffsets) :
    ReadM EmevdInstruction := do
  let bank ← readI32
  let id ← readI32
  let argsLength ← readVarint
  let argsOffset ← readVarint
  let layerOffset ← emevdReadLayerOffset format
  let argDataSize ← emevdI64ToSize argsLength
  let argData ← emevdReadArgs offsets argDataSize argsOffset
  let layer ← emevdReadLayer offsets layerOffset
  pure { bank := bank, id := id, argData := argData, layer := layer }

/-- The entries of an event in a section: stepped in to, read one after another, and stepped out. -/
def emevdReadSection {α : Type} (base : Int) (offset : Int64) (count : Nat) (read : ReadM α) :
    ReadM (List α) :=
  if 0 < count then do
    let off ← int64Add base offset.toInt
    defineGet off (readEach read count)
  else pure []

def emevdEventRead (format : EmevdFormat) (offsets : EmevdOffsets) : ReadM EmevdEvent := do
  let id ← readVarint
  let instructionCount ← readVarint
  let instructionOffset ← readVarint
  let parameterCount ← readVarint
  let parameterOffset ← readVarint
  let restBehavior ← readEnum32 [0, 1, 2]
  let _ ← assertI32 [0]
  let instructionCount ← emevdI64ToSize instructionCount
  let parameterCount ← emevdI64ToSize parameterCount
  emevdAllocArray instructionCount emevdEntrySize
  emevdAllocArray parameterCount emevdEntrySize
  let instructions ← emevdReadSection offsets.instructions instructionOffset instructionCount
    (emevdInstructionRead format offsets)
  let parameters ← emevdReadSection offsets.parameters parameterOffset parameterCount
    emevdParameterRead
  pure { id := id, restBehavior := emevdRestBehaviorOf restBehavior, instructions := instructions,
         parameters := parameters }

/-- The format that the flags and the version of a header stand for. -/
def emevdFormatOf (bigEndian is64Bit unk06 unk07 : Bool) (version : Int32) : Option EmevdFormat :=
  if !bigEndian && !is64Bit && !unk06 && !unk07 && version = 0xCC then some .darkSouls1
  else if bigEndian && !is64Bit && !unk06 && !unk07 && version = 0xCC then some .darkSouls1Be
  else if !bigEndian && is64Bit && !unk06 && !unk07 && version = 0xCC then some .bloodborne
  else if !bigEndian && is64Bit && unk06 && !unk07 && (version = 0xCC ∨ version = 0xCD) then
    some .darkSouls3
  else if !bigEndian && is64Bit && unk06 && unk07 && version = 0xCD then some .sekiro
  else none

/-- What `emevd_read_header` finds out. -/
structure EmevdHeader where
  format : EmevdFormat
  bigEndian : Bool
  is64Bit : Bool
  offsets : EmevdOffsets
  eventCount : Int64
  linkedFileCount : Int64
  stringDataSize : Int64

/-- The counts and the offsets of a header. -/
def emevdReadOffsets (format : EmevdFormat) (bigEndian is64Bit : Bool) : ReadM EmevdHeader := do
  let eventCount ← readVarint
  let events ← readVarint
  let _ ← readVarint
  let instructions ← readVarint
  let _ ← assertVarint [0]
  let _ ← readVarint
  let _ ← readVarint
  let layers ← readVarint
  let _ ← readVarint
  let parameters ← readVarint
  let linkedFileCount ← readVarint
  let linkedFiles ← readVarint
  let _ ← readVarint
  let arguments ← readVarint
  let stringDataSize ← readVarint
  let strings ← readVarint
  assertShort is64Bit
  pure { format := format, bigEndian := bigEndian, is64Bit := is64Bit,
         offsets := { events := events.toInt, instructions := instructions.toInt,
                      layers := layers.toInt, parameters := parameters.toInt,
                      linkedFiles := linkedFiles.toInt, arguments := arguments.toInt,
                      strings := strings.toInt },
         eventCount := eventCount, linkedFileCount := linkedFileCount,
         stringDataSize := stringDataSize }
where
  /-- The 0 that ends a header of the narrow layout. -/
  assertShort (is64Bit : Bool) : ReadM Unit :=
    if is64Bit then pure ()
    else do
      let _ ← assertI32 [0]
      pure ()

def emevdReadHeader : ReadM EmevdHeader := do
  let magic ← readBytes 4
  check (magic = [0x45, 0x56, 0x44, 0]) .badMagic
  let bigEndian ← readBool
  let is64Flag ← assertI8 [0, -1]
  let unk06 ← readBool
  let unk07Flag ← assertI8 [0, -1]
  let is64Bit := decide (is64Flag = -1)
  let unk07 := decide (unk07Flag = -1)
  setBigEndian bigEndian
  setVarintLong is64Bit
  let version ← assertI32 [0xCC, 0xCD]
  let _ ← readI32
  match emevdFormatOf bigEndian is64Bit unk06 unk07 version with
  | none => fail .unsupportedVersion
  | some format => emevdReadOffsets format bigEndian is64Bit

def emevdReadEvents (header : EmevdHeader) (eventCount : Nat) : ReadM (List EmevdEvent) :=
  if 0 < eventCount then do
    emevdAllocArray eventCount emevdEventSize
    defineGet header.offsets.events
      (readEach (emevdEventRead header.format header.offsets) eventCount)
  else pure []

def emevdReadLinkedFiles (header : EmevdHeader) (linkedFileCount : Nat) : ReadM (List Int64) :=
  if 0 < linkedFileCount then do
    emevdAllocArray linkedFileCount 8
    getVarints header.offsets.linkedFiles linkedFileCount
  else pure []

def emevdReadStrings (header : EmevdHeader) (stringDataSize : Nat) : ReadM (List UInt8) :=
  if 0 < stringDataSize then do
    let _ ← onHeap Heap.alloc
    getBytes header.offsets.strings stringDataSize
  else pure []

def emevdRead : ReadM Emevd := do
  let _ ← onHeap Heap.alloc
  let header ← emevdReadHeader
  let eventCount ← emevdI64ToSize header.eventCount
  let linkedFileCount ← emevdI64ToSize header.linkedFileCount
  let stringDataSize ← emevdI64ToSize header.stringDataSize
  let events ← emevdReadEvents header eventCount
  let linkedFileOffsets ← emevdReadLinkedFiles header linkedFileCount
  let stringData ← emevdReadStrings header stringDataSize
  pure { format := header.format, bigEndian := header.bigEndian, is64Bit := header.is64Bit,
         events := events, linkedFileOffsets := linkedFileOffsets, stringData := stringData }

/-- `sf_emevd_read_from_memory`. -/
def emevdReadFromMemory (flexible : Bool) (data : List UInt8) : Fallible Heap SfError Emevd :=
  onMemory data false flexible emevdRead

end Reading

/-! ## Writing -/

section Writing

open BinaryWriter

/-- `emevd_write_props_t`. -/
structure EmevdWriteProps where
  bigEndian : Bool
  is64Bit : Bool
  unk06 : Bool
  unk07 : Bool
  version : Int32
deriving DecidableEq, Repr

def emevdWriteProps : EmevdFormat → EmevdWriteProps
  | .darkSouls1 => ⟨false, false, false, false, 0xCC⟩
  | .darkSouls1Be => ⟨true, false, false, false, 0xCC⟩
  | .bloodborne => ⟨false, true, false, false, 0xCC⟩
  | .darkSouls3 => ⟨false, true, true, false, 0xCD⟩
  | .sekiro => ⟨false, true, true, true, 0xCD⟩

def emevdCountToI64 (count : Nat) : WriteM Int64 := do
  check (count ≤ INT64_MAX) .outOfRange
  pure (Int64.ofNat count)

/-- The loop of `emevd_total_instruction_count` and `emevd_total_parameter_count`. -/
def emevdTotalCount (count : EmevdEvent → Nat) : List EmevdEvent → Nat → WriteM Int64
  | [], total => emevdCountToI64 total
  | event :: events, total => do
    check (count event ≤ SIZE_MAX - total) .outOfRange
    emevdTotalCount count events (total + count event)

/-- The loops of `emevd_collect_layers`: the masks in the order of their first use. -/
def emevdCollectLayers : List EmevdInstruction → List UInt32 → WriteM (List UInt32)
  | [], layers => pure layers
  | instr :: instrs, layers =>
    match instr.layer with
    | none => emevdCollectLayers instrs layers
    | some mask =>
      if mask ∈ layers then emevdCollectLayers instrs layers
      else do
        check (layers.length ≠ SIZE_MAX / 4) .outOfRange
        let _ ← onHeap Heap.alloc
        emevdCollectLayers instrs (layers ++ [mask])

/-- The side table of the offsets of the layers. -/
def emevdAllocLayerOffsets (layerCount : Nat) : WriteM Unit :=
  if 0 < layerCount then do
    check (layerCount ≤ SIZE_MAX / 8) .outOfRange
    let _ ← onHeap Heap.alloc
    pure ()
  else pure ()

/-- A name in a buffer of `size` bytes. -/
def emevdName (size : Nat) (name : List UInt8) : WriteM (List UInt8) := do
  check (name.length < size) .outOfRange
  pure name

def emevdEventName (suffix : String) (eventIndex : Nat) : WriteM (List UInt8) :=
  emevdName 64 (label "Event" eventIndex ++ cstr suffix)

def emevdInstrName (suffix : String) (eventIndex instrIndex : Nat) : WriteM (List UInt8) :=
  emevdName 80 (label "Event" eventIndex ++ label "Instr" instrIndex ++ cstr suffix)

/-- A slot for an offset: four bytes, four bytes and a 0 behind them, or eight bytes. -/
def emevdReserveOffset (narrow padded : Bool) (name : List UInt8) : WriteM Unit :=
  if narrow then reserveI32 name
  else if padded then do
    reserveI32 name
    writeI32 0
  else reserveI64 name

/-- Fill a slot of four or eight bytes. -/
def emevdFillOffset (narrow : Bool) (name : List UInt8) (offset : Int) : WriteM Unit :=
  if narrow then do
    check (-2 ^ 31 ≤ offset ∧ offset < 2 ^ 31) .outOfRange
    fillI32 name (Int32.ofInt offset)
  else fillI64 name (Int64.ofInt offset)

def emevdLayerWrite (mask : UInt32) : WriteM Unit := do
  writeI32 2
  writeU32 mask
  writeVarint 0
  writeVarint (-1)
  writeVarint 1

def emevdParameterWrite (parameter : EmevdParameter) : WriteM Unit := do
  writeVarint parameter.instructionIndex
  writeVarint parameter.targetStartByte
  writeVarint parameter.sourceStartByte
  writeI32 parameter.byteCount
  writeI32 parameter.unkId

def emevdInstructionWrite (format : EmevdFormat) (eventIndex instrIndex : Nat)
    (instr : EmevdInstruction) : WriteM Unit := do
  writeI32 instr.bank
  writeI32 instr.id
  writeVarint (Int64.ofNat instr.argData.length)
  let name ← emevdInstrName "ArgsOffset" eventIndex instrIndex
  emevdReserveOffset (format.before .bloodborne) (format.before .sekiro) name
  let name ← emevdInstrName "LayerOffset" eventIndex instrIndex
  emevdReserveOffset false (format.before .darkSouls3) name

def emevdInstructionWriteArgs (format : EmevdFormat) (arguments : Int) (eventIndex instrIndex : Nat)
    (instr : EmevdInstruction) : WriteM Unit := do
  let name ← emevdInstrName "ArgsOffset" eventIndex instrIndex
  let pos ← peek position
  emevdFillOffset (format.before .sekiro) name
    (if 0 < instr.argData.length then pos - arguments else -1)
  emevdWriteArgData instr.argData
  pad 4
where
  emevdWriteArgData (argData : List UInt8) : WriteM Unit :=
    if 0 < argData.length then writeBytes argData else pure ()

/-- `sfi_emevd_instruction_fill_layer_offset`; `layers` pairs every mask with its offset. -/
def emevdInstructionFillLayerOffset (format : EmevdFormat) (layers : List (UInt32 × Int))
    (eventIndex instrIndex : Nat) (instr : EmevdInstruction) : WriteM Unit := do
  let name ← emevdInstrName "LayerOffset" eventIndex instrIndex
  match instr.layer with
  | none => emevdFillOffset (format.before .darkSouls3) name (-1)
  | some mask =>
    match layers.find? fun layer => layer.1 = mask with
    | none => fail .internal
    | some (_, offset) => emevdFillOffset (format.before .darkSouls3) name offset

def emevdEventWrite (format : EmevdFormat) (eventIndex : Nat) (event : EmevdEvent) :
    WriteM Unit := do
  writeVarint event.id
  writeVarint (Int64.ofNat event.instructions.length)
  let name ← emevdEventName "InstrsOffset" eventIndex
  reserveVarint name
  writeVarint (Int64.ofNat event.parameters.length)
  let name ← emevdEventName "ParamsOffset" eventIndex
  emevdReserveOffset (format.before .bloodborne) (format.before .darkSouls3) name
  writeU32 event.restBehavior.value
  writeI32 0

def emevdEventWriteInstructions (format : EmevdFormat) (instructions : Int) (eventIndex : Nat)
    (event : EmevdEvent) : WriteM Unit := do
  let name ← emevdEventName "InstrsOffset" eventIndex
  let pos ← peek position
  fillVarint name
    (Int64.ofInt (if 0 < event.instructions.length then pos - instructions else -1))
  forIndexed (emevdInstructionWrite format eventIndex) 0 event.instructions

def emevdEventWriteParameters (format : EmevdFormat) (parameters : Int) (eventIndex : Nat)
    (event : EmevdEvent) : WriteM Unit := do
  let name ← emevdEventName "ParamsOffset" eventIndex
  let pos ← peek position
  emevdFillOffset (format.before .darkSouls3) name
    (if 0 < event.parameters.length then pos - parameters else -1)
  forIndexed (fun _ => emevdParameterWrite) 0 event.parameters

/-- The loop over the layers: each mask with its offset from the start of the section. -/
def emevdWriteLayers (start : Int) : List UInt32 → WriteM (List (UInt32 × Int))
  | [] => pure []
  | mask :: masks => do
    let pos ← peek position
    emevdLayerWrite mask
    let layers ← emevdWriteLayers start masks
    pure ((mask, pos - start) :: layers)

/-- The loops over the instructions of all events. -/
def emevdForInstructions (f : Nat → Nat → EmevdInstruction → WriteM Unit) (emevd : Emevd) :
    WriteM Unit :=
  forIndexed (fun i event => forIndexed (f i) 0 event.instructions) 0 emevd.events

/-- Fill a header slot with the position, which is the start of a section. -/
def emevdFillHere (name : String) : WriteM Nat := do
  let pos ← peek position
  fillVarint (cstr name) (Int64.ofNat pos)
  pure pos

def emevdWriteHeader (emevd : Emevd) (layerCount : Nat) : WriteM Unit := do
  let props := emevdWriteProps emevd.format
  let eventCount ← emevdCountToI64 emevd.events.length
  let instructionCount ← emevdTotalCount (fun event => event.instructions.length) emevd.events 0
  let parameterCount ← emevdTotalCount (fun event => event.parameters.length) emevd.events 0
  let linkedFileCount ← emevdCountToI64 emevd.linkedFileOffsets.length
  let stringDataSize ← emevdCountToI64 emevd.stringData.length
  let layerCount ← emevdCountToI64 layerCount
  writeBytes [0x45, 0x56, 0x44, 0]
  writeBool props.bigEndian
  writeI8 (if props.is64Bit then -1 else 0)
  writeBool props.unk06
  writeI8 (if props.unk07 then -1 else 0)
  setBigEndian props.bigEndian
  setVarintLong props.is64Bit
  writeI32 props.version
  reserveI32 (cstr "FileSize")
  writeVarint eventCount
  reserveVarint (cstr "EventsOffset")
  writeVarint instructionCount
  reserveVarint (cstr "InstructionsOffset")
  writeVarint 0
  reserveVarint (cstr "Offset3")
  writeVarint layerCount
  reserveVarint (cstr "LayersOffset")
  writeVarint parameterCount
  reserveVarint (cstr "ParametersOffset")
  writeVarint linkedFileCount
  reserveVarint (cstr "LinkedFilesOffset")
  reserveVarint (cstr "ArgumentsLength")
  reserveVarint (cstr "ArgumentsOffset")
  writeVarint stringDataSize
  reserveVarint (cstr "StringsOffset")
  writeShort props.is64Bit
where
  writeShort (is64Bit : Bool) : WriteM Unit := if is64Bit then pure () else writeI32 0

/-- The sections behind the header. -/
def emevdWriteSections (emevd : Emevd) (masks : List UInt32) : WriteM Unit := do
  let format := emevd.format
  let _ ← emevdFillHere "EventsOffset"
  forIndexed (emevdEventWrite format) 0 emevd.events
  let instructions ← emevdFillHere "InstructionsOffset"
  forIndexed (emevdEventWriteInstructions format instructions) 0 emevd.events
  let _ ← emevdFillHere "Offset3"
  let layersStart ← emevdFillHere "LayersOffset"
  let layers ← emevdWriteLayers layersStart masks
  emevdForInstructions (emevdInstructionFillLayerOffset format layers) emevd
  let arguments ← emevdFillHere "ArgumentsOffset"
  emevdForInstructions (emevdInstructionWriteArgs format arguments) emevd
  padRelative arguments 0x10
  let pos ← peek position
  fillVarint (cstr "ArgumentsLength") (Int64.ofNat pos - Int64.ofNat arguments)
  let parameters ← emevdFillHere "ParametersOffset"
  forIndexed (emevdEventWriteParameters format parameters) 0 emevd.events
  let _ ← emevdFillHere "LinkedFilesOffset"
  forIndexed (fun _ => writeVarint) 0 emevd.linkedFileOffsets
  let _ ← emevdFillHere "StringsOffset"
  writeStrings emevd.stringData
  let pos ← peek position
  check ((pos : Int) ≤ INT32_MAX) .outOfRange
  fillI32 (cstr "FileSize") (Int32.ofNat pos)
where
  writeStrings (stringData : List UInt8) : WriteM Unit :=
    if 0 < stringData.length then writeBytes stringData else pure ()

/-- `sfi_emevd_write`. What `emevd_validate_for_write` looks for, an array that is missing, is no list. -/
def emevdWrite (emevd : Emevd) : WriteM Unit := do
  let masks ← emevdCollectLayers (emevd.events.flatMap EmevdEvent.instructions) []
  emevdAllocLayerOffsets masks.length
  emevdWriteHeader emevd masks.length
  emevdWriteSections emevd masks

/-- `sf_emevd_write_to_memory`. -/
def emevdWriteToMemory (emevd : Emevd) : Fallible Heap SfError (List UInt8) :=
  writeToMemory false (emevdWrite emevd)

end Writing

end SoulsFormats
