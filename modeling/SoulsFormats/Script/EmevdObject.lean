import SoulsFormats.Core.Construction
import SoulsFormats.Script.Emevd

set_option autoImplicit false

/-! # The object of an event script while it is read

`emevd_read` again, now with the fields of its object one by one: a count is stored before its array is allocated, and
what cleans up trusts the count. An array that is not allocated has no elements. Each function ends as its counterpart
of `Script/Emevd` does, which has no object. -/

namespace SoulsFormats

open Fallible BinaryReader Built Construct

/-! ## The object -/

/-- `sf_emevd_event_t` with its counts. -/
structure EmevdEventObject where
  id : Int64 := 0
  restBehavior : EmevdRestBehavior := .default
  instructionCount : Nat := 0
  instructions : List EmevdInstruction := []
  parameterCount : Nat := 0
  parameters : List EmevdParameter := []
deriving DecidableEq, Repr

/-- `sf_emevd_t` with its counts. -/
structure EmevdObject where
  format : EmevdFormat := .darkSouls1
  bigEndian : Bool := false
  is64Bit : Bool := false
  eventCount : Nat := 0
  events : List EmevdEventObject := []
  linkedFileCount : Nat := 0
  linkedFileOffsets : List Int64 := []
  stringDataSize : Nat := 0
  stringData : List UInt8 := []
deriving DecidableEq, Repr

def EmevdEventObject.instructionTable : TableOf EmevdEventObject EmevdInstruction where
  get o := o.instructions
  set l o := { o with instructions := l }
  get_set _ _ := rfl
  set_set _ _ _ := rfl
  set_get _ := rfl

def EmevdEventObject.parameterTable : TableOf EmevdEventObject EmevdParameter where
  get o := o.parameters
  set l o := { o with parameters := l }
  get_set _ _ := rfl
  set_set _ _ _ := rfl
  set_get _ := rfl

def EmevdObject.eventTable : TableOf EmevdObject EmevdEventObject where
  get o := o.events
  set l o := { o with events := l }
  get_set _ _ := rfl
  set_set _ _ _ := rfl
  set_get _ := rfl

/-- An instruction and a parameter as `memset` leaves them. -/
def zeroInstruction : EmevdInstruction := { bank := 0, id := 0, argData := [], layer := none }

def zeroParameter : EmevdParameter :=
  { instructionIndex := 0, targetStartByte := 0, sourceStartByte := 0, byteCount := 0, unkId := 0 }

/-- The objects of what is read. -/
def EmevdEvent.object (event : EmevdEvent) : EmevdEventObject where
  id := event.id
  restBehavior := event.restBehavior
  instructionCount := event.instructions.length
  instructions := event.instructions
  parameterCount := event.parameters.length
  parameters := event.parameters

/-! ## Events -/

/-- What an event has before its arrays. -/
structure EmevdEventHead where
  id : Int64
  instructionCount : Int64
  instructionOffset : Int64
  parameterCount : Int64
  parameterOffset : Int64
  restBehavior : UInt32

def emevdEventHead : ReadM EmevdEventHead := do
  let id ← readVarint
  let instructionCount ← readVarint
  let instructionOffset ← readVarint
  let parameterCount ← readVarint
  let parameterOffset ← readVarint
  let restBehavior ← readEnum32 [0, 1, 2]
  let _ ← assertI32 [0]
  pure
    { id := id
      instructionCount := instructionCount
      instructionOffset := instructionOffset
      parameterCount := parameterCount
      parameterOffset := parameterOffset
      restBehavior := restBehavior }

def sfiEmevdEventFree : ConstructM EmevdEventObject Unit := do
  let b ← state
  upTo (fun i => access EmevdEventObject.instructionTable i) b.object.instructionCount 0
  assign fun _ => {}

def emevdAllocEventArrays : ConstructM EmevdEventObject Unit := do
  let b ← state
  reading (emevdAllocArray b.object.instructionCount emevdEntrySize)
  assign fun o => { o with instructions := List.replicate o.instructionCount zeroInstruction }
  reading (emevdAllocArray b.object.parameterCount emevdEntrySize)
  assign fun o => { o with parameters := List.replicate o.parameterCount zeroParameter }

/-- One of the two loops of `sfi_emevd_event_read`. -/
def emevdReadElements {τ : Type} (T : TableOf EmevdEventObject τ) (blank : τ) (base : Int) (offset : Int64)
    (count : Nat) (read : ReadM τ) : ConstructM EmevdEventObject Unit :=
  if 0 < count then do
    let off ← reading (int64Add base offset.toInt)
    constructAt off (upTo (readElement T blank read) count 0)
  else pure ()

/-- Both loops. -/
def emevdEventLoops (format : EmevdFormat) (offsets : EmevdOffsets) (head : EmevdEventHead) :
    ConstructM EmevdEventObject Unit := do
  let b ← state
  emevdReadElements EmevdEventObject.instructionTable zeroInstruction offsets.instructions head.instructionOffset
    b.object.instructionCount (emevdInstructionRead format offsets)
  emevdReadElements EmevdEventObject.parameterTable zeroParameter offsets.parameters head.parameterOffset
    b.object.parameterCount emevdParameterRead

/-- What `sfi_emevd_event_read` does between its counts and its label `fail`. -/
def emevdEventArrays (format : EmevdFormat) (offsets : EmevdOffsets) (head : EmevdEventHead) :
    ConstructM EmevdEventObject Unit := do
  emevdAllocEventArrays
  emevdEventLoops format offsets head

def sfiEmevdEventRead (format : EmevdFormat) (offsets : EmevdOffsets) : ConstructM EmevdEventObject Unit := do
  assign fun _ => {}
  let head ← reading emevdEventHead
  assign fun o => { o with id := head.id, restBehavior := emevdRestBehaviorOf head.restBehavior }
  let instructionCount ← reading (emevdI64ToSize head.instructionCount)
  assign fun o => { o with instructionCount := instructionCount }
  -- a failure still returns without the clean-up
  let parameterCount ← reading (emevdI64ToSize head.parameterCount)
  assign fun o => { o with parameterCount := parameterCount }
  onFailure (emevdEventArrays format offsets head) sfiEmevdEventFree

/-! ## Scripts -/

def emevdBuildEvents (header : EmevdHeader) : ConstructM EmevdObject Unit := do
  let b ← state
  if 0 < b.object.eventCount then do
    reading (emevdAllocArray b.object.eventCount emevdEventSize)
    assign fun o => { o with events := List.replicate o.eventCount {} }
    constructAt header.offsets.events
      (upTo (fun i => element EmevdObject.eventTable {} i (sfiEmevdEventRead header.format header.offsets))
        b.object.eventCount 0)
  else pure ()

/-- `emevd_read` on an object that was just allocated, without its label `fail`. -/
def emevdBuild : ConstructM EmevdObject Unit := do
  let header ← reading emevdReadHeader
  assign fun o => { o with format := header.format, bigEndian := header.bigEndian, is64Bit := header.is64Bit }
  let eventCount ← reading (emevdI64ToSize header.eventCount)
  assign fun o => { o with eventCount := eventCount }
  let linkedFileCount ← reading (emevdI64ToSize header.linkedFileCount)
  assign fun o => { o with linkedFileCount := linkedFileCount }
  let stringDataSize ← reading (emevdI64ToSize header.stringDataSize)
  assign fun o => { o with stringDataSize := stringDataSize }
  emevdBuildEvents header
  let linkedFileOffsets ← reading (emevdReadLinkedFiles header linkedFileCount)
  assign fun o => { o with linkedFileOffsets := linkedFileOffsets }
  let stringData ← reading (emevdReadStrings header stringDataSize)
  assign fun o => { o with stringData := stringData }

def sfEmevdDestroy : ConstructM EmevdObject Unit := do
  let b ← state
  upTo (fun i => element EmevdObject.eventTable {} i sfiEmevdEventFree) b.object.eventCount 0

/-- `emevd_read`; who gets the object destroys it later. -/
def emevdReadAndDestroy : ConstructM EmevdObject Unit := do
  onFailure emevdBuild sfEmevdDestroy
  sfEmevdDestroy

/-- The accesses to arrays of the object that is read by `sf_emevd_read_from_memory`; there are none if there is no
object. -/
def emevdAccesses (flexible : Bool) (data : List UInt8) : Fallible Heap SfError (List Access) :=
  onMemory data false flexible do
    let _ ← onHeap Heap.alloc
    Construct.logOf {} emevdReadAndDestroy

end SoulsFormats
