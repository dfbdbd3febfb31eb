import SoulsFormats.Core.BinaryWriter

set_option autoImplicit false

/-! # FFXDLSE effects

The reader and the writer of `ffxdlse.c`. An effect is a tree of serialized objects. Each of them starts with
the index of its class in a table of names, a version, and its length, which the writer fills in when it has
written the object. -/

namespace SoulsFormats

open Bytes Fallible

/-- `INT16_MAX`. -/
def INT16_MAX : Nat := 2 ^ 15 - 1

def CN_EFFECT : List UInt8 := cstr "FXSerializableEffect"
def CN_PARAM_LIST : List UInt8 := cstr "FXSerializableParamList"
def CN_STATE_MAP : List UInt8 := cstr "FXSerializableStateMap"
def CN_STATE : List UInt8 := cstr "FXSerializableState"
def CN_ACTION : List UInt8 := cstr "FXSerializableAction"
def CN_TRIGGER : List UInt8 := cstr "FXSerializableTrigger"
def CN_PARAM : List UInt8 := cstr "FXSerializableParam"
def CN_EVAL : List UInt8 := cstr "FXSerializableEvaluatable<dl_int32>"
def CN_RESOURCE_SET : List UInt8 := cstr "FXResourceSet"
def CN_DLVECTOR : List UInt8 := cstr "DLVector"

def V_EFFECT : Int32 := 5
def V_PARAM_LIST : Int32 := 2
def V_STATE_MAP : Int32 := 1
def V_STATE : Int32 := 1
def V_ACTION : Int32 := 1
def V_TRIGGER : Int32 := 1
def V_PARAM : Int32 := 2
def V_EVAL : Int32 := 1
def V_RESOURCE_SET : Int32 := 1

/-! ## The tree -/

/-- The opcodes of evaluatables without operands. -/
inductive FfxLeafOpcode where
  | currentTick | totalTick | childExists | parentExists | distanceFromCamera | emittersStopped
deriving DecidableEq, Repr

/-- `SF_FFXDLSE_EVAL_2` and `SF_FFXDLSE_EVAL_3`. -/
inductive FfxArgOpcode where
  | eval2 | eval3
deriving DecidableEq, Repr

/-- The opcodes of `eval_is_binary`. -/
inductive FfxBinaryOpcode where
  | and | or | ge | gt | le | lt | eq | ne
deriving DecidableEq, Repr

/-- `sf_ffxdlse_evaluatable_opcode_t`. -/
inductive FfxOpcode where
  | constant
  | arg (opcode : FfxArgOpcode)
  | leaf (opcode : FfxLeafOpcode)
  | binary (opcode : FfxBinaryOpcode)
  | not
deriving DecidableEq, Repr

def FfxOpcode.toInt32 : FfxOpcode → Int32
  | .constant => 1
  | .arg .eval2 => 2
  | .arg .eval3 => 3
  | .leaf .currentTick => 4
  | .leaf .totalTick => 5
  | .binary .and => 8
  | .binary .or => 9
  | .binary .ge => 10
  | .binary .gt => 11
  | .binary .le => 12
  | .binary .lt => 13
  | .binary .eq => 14
  | .binary .ne => 15
  | .not => 20
  | .leaf .childExists => 21
  | .leaf .parentExists => 22
  | .leaf .distanceFromCamera => 23
  | .leaf .emittersStopped => 24

/-- The opcodes that `valid_eval_opcode` lets pass. -/
def FfxOpcode.all : List FfxOpcode :=
  [.constant, .arg .eval2, .arg .eval3, .leaf .currentTick, .leaf .totalTick, .binary .and, .binary .or,
    .binary .ge, .binary .gt, .binary .le, .binary .lt, .binary .eq, .binary .ne, .not, .leaf .childExists,
    .leaf .parentExists, .leaf .distanceFromCamera, .leaf .emittersStopped]

def FfxOpcode.ofInt32? (v : Int32) : Option FfxOpcode := all.find? fun opcode => opcode.toInt32 = v

/-- `sf_ffxdlse_evaluatable_t`, with the fields that its opcode has; the others are zero in the source. -/
inductive FfxEvaluatable where
  | constant (typeField value : Int32)
  | arg (opcode : FfxArgOpcode) (typeField unk00 argIndex : Int32)
  | leaf (opcode : FfxLeafOpcode) (typeField : Int32)
  | binary (opcode : FfxBinaryOpcode) (typeField : Int32) (left right : FfxEvaluatable)
  | not (typeField : Int32) (operand : FfxEvaluatable)
deriving DecidableEq, Repr

/-- The types that `valid_param_type` lets pass. -/
def validParamTypes : List Int32 :=
  [1, 2, 5, 6, 7, 9, 11, 12, 13, 15, 17, 18, 19, 20, 21, 37, 38, 40, 41, 44, 45, 46, 47, 59, 60, 66, 68, 69, 70,
    71, 79, 81, 82, 83, 84, 85, 87]

/-- `sf_ffxdlse_param_type_t`. -/
structure FfxParamType where
  value : Int32
  valid : value ∈ validParamTypes
deriving DecidableEq, Repr

def FfxParamType.ofInt32? (v : Int32) : Option FfxParamType :=
  if h : v ∈ validParamTypes then some ⟨v, h⟩ else none

/-- `sf_ffxdlse_param_t`. -/
structure FfxParam where
  type : FfxParamType
  payloadAfterType : List UInt8
deriving DecidableEq, Repr

/-- `sf_ffxdlse_param_list_t`. -/
structure FfxParamList where
  unk04 : Int32
  params : List FfxParam
deriving DecidableEq, Repr

/-- `sf_ffxdlse_action_t`. -/
structure FfxAction where
  id : Int32
  paramList : FfxParamList
deriving DecidableEq, Repr

/-- `sf_ffxdlse_trigger_t`; the evaluator may be a null pointer. -/
structure FfxTrigger where
  stateIndex : Int32
  evaluator : Option FfxEvaluatable
deriving DecidableEq, Repr

/-- `sf_ffxdlse_state_t`. -/
structure FfxState where
  actions : List FfxAction
  triggers : List FfxTrigger
deriving DecidableEq, Repr

/-- `sf_ffxdlse_state_map_t`. -/
structure FfxStateMap where
  states : List FfxState
deriving DecidableEq, Repr

/-- `SF_FFXDLSE_RES_VECTOR_COUNT`. -/
def ffxResVectorCount : Nat := 5

/-- `sf_ffxdlse_resource_set_t`. -/
structure FfxResourceSet where
  vectors : List (List Int32)
  count : vectors.length = ffxResVectorCount
deriving DecidableEq, Repr

/-- `sf_ffxdlse_effect_t`. -/
structure FfxEffect where
  id : Int32
  paramList1 : FfxParamList
  paramList2 : FfxParamList
  stateMap : FfxStateMap
  resourceSet : FfxResourceSet
deriving DecidableEq, Repr

/-- `ffx_class_names_t`. -/
structure FfxClassNames where
  names : List (List UInt8)
  cap : Nat
deriving DecidableEq, Repr

/-- `sf_ffxdlse_t`. -/
structure Ffxdlse where
  classNames : FfxClassNames
  effect : FfxEffect
deriving DecidableEq, Repr

/-! ## Class names -/

namespace FfxClassNames

/-- `cn_init`. -/
def init : FfxClassNames := ⟨[], 0⟩

/-- `cn_index_of`. -/
def indexOf (cn : FfxClassNames) (name : List UInt8) : Option Nat :=
  cn.names.findIdx? fun n => cText n = cText name

/-- `cn_append_owned`. -/
def appendOwned (cn : FfxClassNames) (name : List UInt8) : Fallible Heap SfError FfxClassNames :=
  if cn.names.length = cn.cap then do
    let _ ← Heap.alloc
    pure ⟨cn.names ++ [name], if cn.cap = 0 then 8 else cn.cap * 2⟩
  else pure ⟨cn.names ++ [name], cn.cap⟩

/-- `cn_add`. -/
def add (cn : FfxClassNames) (name : List UInt8) : Fallible Heap SfError FfxClassNames :=
  if (cn.indexOf name).isSome then pure cn
  else do
    let _ ← Heap.alloc
    cn.appendOwned (cText name)

/-- The loop of `cn_copy`. -/
def copy (dst : FfxClassNames) : List (List UInt8) → Fallible Heap SfError FfxClassNames
  | [] => pure dst
  | name :: names => do
    let dst ← dst.add name
    dst.copy names

end FfxClassNames

/-! ## Creating -/

/-- `grow_ptrs`: the capacity afterwards. -/
def growPtrs (count cap : Nat) : Fallible Heap SfError Nat :=
  if count < cap then pure cap
  else do
    let _ ← Heap.alloc
    pure (if cap = 0 then 4 else cap * 2)

def createParamList : Fallible Heap SfError FfxParamList := do
  let _ ← Heap.alloc
  pure ⟨0, []⟩

def createAction : Fallible Heap SfError FfxAction := do
  let _ ← Heap.alloc
  let paramList ← createParamList
  pure ⟨0, paramList⟩

def createTrigger : Fallible Heap SfError FfxTrigger := do
  let _ ← Heap.alloc
  pure ⟨0, none⟩

def createState : Fallible Heap SfError FfxState := do
  let _ ← Heap.alloc
  pure ⟨[], []⟩

def createStateMap : Fallible Heap SfError FfxStateMap := do
  let _ ← Heap.alloc
  pure ⟨[]⟩

def createResourceSet : Fallible Heap SfError FfxResourceSet := do
  let _ ← Heap.alloc
  pure ⟨List.replicate ffxResVectorCount [], rfl⟩

def createEffect : Fallible Heap SfError FfxEffect := do
  let _ ← Heap.alloc
  let paramList1 ← createParamList
  let paramList2 ← createParamList
  let stateMap ← createStateMap
  let resourceSet ← createResourceSet
  pure ⟨0, paramList1, paramList2, stateMap, resourceSet⟩

/-- `sf_ffxdlse_create`. -/
def ffxdlseCreate : Fallible Heap SfError Ffxdlse := do
  let _ ← Heap.alloc
  let effect ← createEffect
  pure ⟨.init, effect⟩

/-! ## Reading -/

section Reading

open BinaryReader

variable (cn : FfxClassNames)

/-- `read_ser_header`: where the object starts, and its length. -/
def readSerHeader (expectedClass : List UInt8) (expectedVersion : Int32) : ReadM (Nat × Int32) := do
  let start ← peek position
  let classIndex ← readI16
  let version ← readI32
  let length ← readI32
  check (0 < classIndex.toInt ∧ classIndex.toInt ≤ cn.names.length) .invalidArg
  check (cText (cn.names.getD (classIndex.toInt.toNat - 1) []) = cText expectedClass) .invalidArg
  check (version = expectedVersion ∧ 10 ≤ length.toInt) .invalidArg
  pure (start, length)

/-- `verify_end`. -/
def verifyEnd (start : Nat) (length : Int32) : ReadM Unit := do
  let pos ← peek position
  check ((pos : Int) = start + length.toInt) .invalidArg

/-- The shape of the functions that read an object: its header, what it holds, and a look at where it ends.
    What is read may depend on where the object is to end. -/
def readSer {α : Type} (expectedClass : List UInt8) (expectedVersion : Int32) (body : Int → ReadM α) :
    ReadM α := do
  let (start, length) ← readSerHeader cn expectedClass expectedVersion
  let v ← body (start + length.toInt)
  verifyEnd start length
  pure v

/-- A loop that reads elements into an array which grows; `count` of them are there already. -/
def readGrowing {α : Type} (read : ReadM α) : Nat → Nat → Nat → ReadM (List α)
  | 0, _, _ => pure []
  | n + 1, count, cap => do
    let cap ← onHeap (growPtrs count cap)
    let v ← read
    let vs ← readGrowing read n (count + 1) cap
    pure (v :: vs)

/-- `read_dlvector`. -/
def readDlvector : ReadM (List Int32) :=
  match cn.indexOf CN_DLVECTOR with
  | none => fail .invalidArg
  | some idx => do
    let _ ← assertI16 [Int16.ofNat (idx + 1)]
    let count ← readI32
    check (0 ≤ count.toInt) .invalidArg
    if count = 0 then pure []
    else do
      let _ ← onHeap Heap.alloc
      readI32s count.toInt.toNat

/-- `read_evaluatable`. An evaluatable takes at least the bytes of its header, so the fuel that its caller
    gives never runs out. -/
def readEvaluatable : Nat → ReadM FfxEvaluatable
  | 0 => fail .nonTermination
  | fuel + 1 => readSer cn CN_EVAL V_EVAL fun _ => do
    let opcode ← readI32
    let typeField ← readI32
    match FfxOpcode.ofInt32? opcode with
    | none => fail .invalidArg
    | some opcode => do
      let _ ← onHeap Heap.alloc
      match opcode with
      | .constant => do
        let value ← readI32
        pure (.constant typeField value)
      | .arg opcode => do
        let unk00 ← readI32
        let argIndex ← readI32
        pure (.arg opcode typeField unk00 argIndex)
      | .leaf opcode => pure (.leaf opcode typeField)
      | .binary opcode => do
        -- the right operand comes first
        let right ← readEvaluatable fuel
        let left ← readEvaluatable fuel
        pure (.binary opcode typeField left right)
      | .not => do
        let operand ← readEvaluatable fuel
        pure (.not typeField operand)

/-- `read_param`: the payload reaches to the end of the object. -/
def readParam : ReadM FfxParam :=
  readSer cn CN_PARAM V_PARAM fun fin => do
    let type ← readI32
    match FfxParamType.ofInt32? type with
    | none => fail .invalidArg
    | some type => do
      let pos ← peek position
      check ((pos : Int) ≤ fin) .invalidArg
      let _ ← onHeap Heap.alloc
      let payload ← given (0 < fin - pos) [] do
        let _ ← onHeap Heap.alloc
        readBytes (fin - pos).toNat
      pure ⟨type, payload⟩

/-- `read_param_list`. -/
def readParamList : ReadM FfxParamList :=
  readSer cn CN_PARAM_LIST V_PARAM_LIST fun _ => do
    let _ ← onHeap createParamList
    let count ← readI32
    let unk04 ← readI32
    check (0 ≤ count.toInt) .invalidArg
    let params ← readGrowing (readParam cn) count.toInt.toNat 0 0
    pure ⟨unk04, params⟩

/-- `read_action`. -/
def readAction : ReadM FfxAction :=
  readSer cn CN_ACTION V_ACTION fun _ => do
    let _ ← onHeap createAction
    let id ← readI32
    let paramList ← readParamList cn
    pure ⟨id, paramList⟩

/-- `read_trigger`. -/
def readTrigger : ReadM FfxTrigger :=
  readSer cn CN_TRIGGER V_TRIGGER fun _ => do
    let _ ← onHeap createTrigger
    let stateIndex ← readI32
    let r ← state
    let evaluator ← readEvaluatable cn (r.length - r.position + 1)
    pure ⟨stateIndex, some evaluator⟩

/-- `read_state`. -/
def readState : ReadM FfxState :=
  readSer cn CN_STATE V_STATE fun _ => do
    let _ ← onHeap createState
    let actionCount ← readI32
    let triggerCount ← readI32
    check (0 ≤ actionCount.toInt ∧ 0 ≤ triggerCount.toInt) .invalidArg
    let actions ← readGrowing (readAction cn) actionCount.toInt.toNat 0 0
    let triggers ← readGrowing (readTrigger cn) triggerCount.toInt.toNat 0 0
    pure ⟨actions, triggers⟩

/-- `read_state_map`. -/
def readStateMap : ReadM FfxStateMap :=
  readSer cn CN_STATE_MAP V_STATE_MAP fun _ => do
    let _ ← onHeap createStateMap
    let count ← readI32
    check (0 ≤ count.toInt) .invalidArg
    let states ← readGrowing (readState cn) count.toInt.toNat 0 0
    pure ⟨states⟩

/-- `read_resource_set`. -/
def readResourceSet : ReadM FfxResourceSet :=
  readSer cn CN_RESOURCE_SET V_RESOURCE_SET fun _ => do
    let _ ← onHeap createResourceSet
    let v0 ← readDlvector cn
    let v1 ← readDlvector cn
    let v2 ← readDlvector cn
    let v3 ← readDlvector cn
    let v4 ← readDlvector cn
    pure ⟨[v0, v1, v2, v3, v4], rfl⟩

/-- `read_effect`. -/
def readEffect : ReadM FfxEffect :=
  readSer cn CN_EFFECT V_EFFECT fun _ => do
    let _ ← onHeap createEffect
    let _ ← assertI32 [0]
    let id ← readI32
    let _ ← assertI32 [0]
    let _ ← assertI32 [0]
    let _ ← assertI32 [2]
    let _ ← assertI16 [0]
    let _ ← assertI16 [2]
    let _ ← assertI32 [0]
    let paramList1 ← readParamList cn
    let paramList2 ← readParamList cn
    let stateMap ← readStateMap cn
    let resourceSet ← readResourceSet cn
    let _ ← assertU8 [0]
    pure ⟨id, paramList1, paramList2, stateMap, resourceSet⟩

/-- The loop over the class names in `sf_ffxdlse_read_from_memory`. -/
def readClassNames : Nat → FfxClassNames → ReadM FfxClassNames
  | 0, cn => pure cn
  | n + 1, cn => do
    let len ← readI32
    check (0 ≤ len.toInt) .invalidArg
    let name ← readAsciiN len.toInt.toNat
    let cn ← onHeap (cn.appendOwned name)
    readClassNames n cn

/-- What `sf_ffxdlse_read_from_memory` does with its reader up to the effect. -/
def ffxdlseReadTable : ReadM FfxClassNames := do
  let ffx ← onHeap ffxdlseCreate
  let _ ← assertU8 [0x44]
  let _ ← assertU8 [0x4C]
  let _ ← assertU8 [0x73]
  let _ ← assertU8 [0x45]
  let _ ← assertU8 [1]
  let _ ← assertU8 [3]
  let _ ← assertU8 [0]
  let _ ← assertU8 [0]
  let _ ← assertI32 [0]
  let _ ← assertI32 [0]
  let _ ← assertU8 [0]
  let _ ← assertI32 [1]
  let classCount ← readI16
  check (0 ≤ classCount.toInt) .invalidArg
  readClassNames classCount.toInt.toNat ffx.classNames

/-- What `sf_ffxdlse_read_from_memory` does with its reader. -/
def ffxdlseRead : ReadM Ffxdlse := do
  let classNames ← ffxdlseReadTable
  let effect ← readEffect classNames
  pure ⟨classNames, effect⟩

/-- `sf_ffxdlse_is`. -/
def ffxdlseIs (data : List UInt8) : Bool := data.take 4 = cstr "DLsE"

/-- `sf_ffxdlse_read_from_memory`, with the number of bytes that the reader has consumed. -/
def ffxdlseReadPrefix (flexible : Bool) (data : List UInt8) : Fallible Heap SfError (Ffxdlse × Nat) := do
  check (ffxdlseIs data = true) .badMagic
  onMemory data false flexible do
    let ffx ← ffxdlseRead
    let pos ← peek position
    pure (ffx, pos)

/-- `sf_ffxdlse_read_from_memory`. -/
def ffxdlseReadFromMemory (flexible : Bool) (data : List UInt8) : Fallible Heap SfError Ffxdlse := do
  let (ffx, _) ← ffxdlseReadPrefix flexible data
  pure ffx

end Reading

/-! ## Collecting the classes -/

/-- `collect_eval`. -/
def collectEval (cn : FfxClassNames) : FfxEvaluatable → Fallible Heap SfError FfxClassNames
  | .constant _ _ => cn.add CN_EVAL
  | .arg _ _ _ _ => cn.add CN_EVAL
  | .leaf _ _ => cn.add CN_EVAL
  | .binary _ _ left right => do
    let cn ← cn.add CN_EVAL
    let cn ← collectEval cn right
    collectEval cn left
  | .not _ operand => do
    let cn ← cn.add CN_EVAL
    collectEval cn operand

/-- `collect_param_list`. -/
def collectParamList (cn : FfxClassNames) (pl : FfxParamList) : Fallible Heap SfError FfxClassNames := do
  let cn ← cn.add CN_PARAM_LIST
  if 0 < pl.params.length then cn.add CN_PARAM else pure cn

/-- A loop of `collect_classes`. -/
def collectEach {α : Type} (collect : FfxClassNames → α → Fallible Heap SfError FfxClassNames) :
    FfxClassNames → List α → Fallible Heap SfError FfxClassNames
  | cn, [] => pure cn
  | cn, a :: as => do
    let cn ← collect cn a
    collectEach collect cn as

def collectAction (cn : FfxClassNames) (a : FfxAction) : Fallible Heap SfError FfxClassNames := do
  let cn ← cn.add CN_ACTION
  collectParamList cn a.paramList

def collectTrigger (cn : FfxClassNames) (t : FfxTrigger) : Fallible Heap SfError FfxClassNames := do
  let cn ← cn.add CN_TRIGGER
  match t.evaluator with
  | none => fail .invalidArg
  | some ev => collectEval cn ev

def collectState (cn : FfxClassNames) (s : FfxState) : Fallible Heap SfError FfxClassNames := do
  let cn ← cn.add CN_STATE
  let cn ← collectEach collectAction cn s.actions
  collectEach collectTrigger cn s.triggers

/-- `collect_classes`. -/
def collectClasses (ffx : Ffxdlse) : Fallible Heap SfError FfxClassNames := do
  let cn ← FfxClassNames.init.copy ffx.classNames.names
  let cn ← cn.add CN_EFFECT
  let cn ← cn.add CN_DLVECTOR
  let cn ← collectParamList cn ffx.effect.paramList1
  let cn ← collectParamList cn ffx.effect.paramList2
  let cn ← cn.add CN_STATE_MAP
  let cn ← collectEach collectState cn ffx.effect.stateMap.states
  let cn ← cn.add CN_RESOURCE_SET
  cn.add CN_DLVECTOR

/-! ## Writing -/

/-- The key of the length of the object at `start`, `"FFXDLSE_%llX"`. -/
def ffxSerKey (start : Nat) : List UInt8 := cstr "FFXDLSE_" ++ (Nat.toDigits 16 start).map hexDigit

section Writing

open BinaryWriter

variable (cn : FfxClassNames)

/-- `write_ser_begin`: where the object starts. -/
def writeSerBegin (className : List UInt8) (version : Int32) : WriteM Nat :=
  match cn.indexOf className with
  | none => fail .invalidArg
  | some idx => do
    let start ← peek position
    writeI16 (Int16.ofNat (idx + 1))
    writeI32 version
    reserveI32 (ffxSerKey start)
    pure start

/-- `write_ser_end`. -/
def writeSerEnd (start : Nat) : WriteM Unit := do
  let fin ← peek position
  check (start ≤ fin ∧ fin - start ≤ INT32_MAX) .outOfRange
  fillI32 (ffxSerKey start) (Int32.ofNat (fin - start))

/-- The shape of the functions that write an object. -/
def writeSer (className : List UInt8) (version : Int32) (body : WriteM Unit) : WriteM Unit := do
  let start ← writeSerBegin cn className version
  body
  writeSerEnd start

/-- `write_dlvector`. -/
def writeDlvector (items : List Int32) : WriteM Unit :=
  match cn.indexOf CN_DLVECTOR with
  | none => fail .invalidArg
  | some idx => do
    check (items.length ≤ INT32_MAX) .invalidArg
    writeI16 (Int16.ofNat (idx + 1))
    writeI32 (Int32.ofNat items.length)
    given (0 < items.length) () (defineWriteArray writeI32 items)

/-- `write_evaluatable`. -/
def writeEvaluatable : FfxEvaluatable → WriteM Unit
  | .constant typeField value => writeSer cn CN_EVAL V_EVAL do
    writeI32 FfxOpcode.constant.toInt32
    writeI32 typeField
    writeI32 value
  | .arg opcode typeField unk00 argIndex => writeSer cn CN_EVAL V_EVAL do
    writeI32 (FfxOpcode.arg opcode).toInt32
    writeI32 typeField
    writeI32 unk00
    writeI32 argIndex
  | .leaf opcode typeField => writeSer cn CN_EVAL V_EVAL do
    writeI32 (FfxOpcode.leaf opcode).toInt32
    writeI32 typeField
  | .binary opcode typeField left right => writeSer cn CN_EVAL V_EVAL do
    writeI32 (FfxOpcode.binary opcode).toInt32
    writeI32 typeField
    writeEvaluatable right
    writeEvaluatable left
  | .not typeField operand => writeSer cn CN_EVAL V_EVAL do
    writeI32 FfxOpcode.not.toInt32
    writeI32 typeField
    writeEvaluatable operand

/-- `write_param`. -/
def writeParam (p : FfxParam) : WriteM Unit :=
  writeSer cn CN_PARAM V_PARAM do
    writeI32 p.type.value
    given (0 < p.payloadAfterType.length) () (writeBytes p.payloadAfterType)

/-- `write_param_list`. -/
def writeParamList (pl : FfxParamList) : WriteM Unit := do
  check (pl.params.length ≤ INT32_MAX) .invalidArg
  writeSer cn CN_PARAM_LIST V_PARAM_LIST do
    writeI32 (Int32.ofNat pl.params.length)
    writeI32 pl.unk04
    writeEach (writeParam cn) pl.params

/-- `write_action`. -/
def writeAction (a : FfxAction) : WriteM Unit :=
  writeSer cn CN_ACTION V_ACTION do
    writeI32 a.id
    writeParamList cn a.paramList

/-- `write_trigger`. -/
def writeTrigger (t : FfxTrigger) : WriteM Unit :=
  match t.evaluator with
  | none => fail .invalidArg
  | some ev => writeSer cn CN_TRIGGER V_TRIGGER do
    writeI32 t.stateIndex
    writeEvaluatable cn ev

/-- `write_state`. -/
def writeState (s : FfxState) : WriteM Unit := do
  check (s.actions.length ≤ INT32_MAX ∧ s.triggers.length ≤ INT32_MAX) .invalidArg
  writeSer cn CN_STATE V_STATE do
    writeI32 (Int32.ofNat s.actions.length)
    writeI32 (Int32.ofNat s.triggers.length)
    writeEach (writeAction cn) s.actions
    writeEach (writeTrigger cn) s.triggers

/-- `write_state_map`. -/
def writeStateMap (sm : FfxStateMap) : WriteM Unit := do
  check (sm.states.length ≤ INT32_MAX) .invalidArg
  writeSer cn CN_STATE_MAP V_STATE_MAP do
    writeI32 (Int32.ofNat sm.states.length)
    writeEach (writeState cn) sm.states

/-- `write_resource_set`. -/
def writeResourceSet (rs : FfxResourceSet) : WriteM Unit :=
  writeSer cn CN_RESOURCE_SET V_RESOURCE_SET (writeEach (writeDlvector cn) rs.vectors)

/-- `write_effect`. -/
def writeEffect (e : FfxEffect) : WriteM Unit :=
  writeSer cn CN_EFFECT V_EFFECT do
    writeI32 0
    writeI32 e.id
    writeI32 0
    writeI32 0
    writeI32 2
    writeI16 0
    writeI16 2
    writeI32 0
    writeParamList cn e.paramList1
    writeParamList cn e.paramList2
    writeStateMap cn e.stateMap
    writeResourceSet cn e.resourceSet
    writeU8 0

/-- The loop over the class names in `sf_ffxdlse_write_to_memory`. -/
def writeClassName (os : Win32) (name : List UInt8) : WriteM Unit := do
  check ((cText name).length ≤ INT32_MAX) .outOfRange
  writeI32 (Int32.ofNat (cText name).length)
  writeAscii os (some name) false

/-- What `sf_ffxdlse_write_to_memory` does with its writer. -/
def ffxdlseWrite (os : Win32) (e : FfxEffect) : WriteM Unit := do
  writeBytes (cstr "DLsE")
  writeU8 1
  writeU8 3
  writeU8 0
  writeU8 0
  writeI32 0
  writeI32 0
  writeU8 0
  writeI32 1
  check (cn.names.length ≤ INT16_MAX) .outOfRange
  writeI16 (Int16.ofNat cn.names.length)
  writeEach (writeClassName os) cn.names
  writeEffect cn e

/-- `sf_ffxdlse_write_to_memory`. -/
def ffxdlseWriteToMemory (os : Win32) (ffx : Ffxdlse) : Fallible Heap SfError (List UInt8) := do
  let cn ← collectClasses ffx
  writeToMemory false (ffxdlseWrite cn os ffx.effect)

end Writing

/-! ## Editing -/

/-- A parameter list that the functions of the source lead to. -/
inductive FfxListPath where
  | paramList1
  | paramList2
  | action (state action : Nat)

/-- A call of a function that changes an effect. The states, actions and triggers are told by their indices, where
    the source has the pointers that `_at` returns; what an index out of range leads to is a null pointer. -/
inductive FfxCall where
  | effectSetId (id : Int32)
  | paramListSetUnk04 (list : FfxListPath) (v : Int32)
  | stateMapAdd
  | stateAddAction (state : Nat)
  | stateAddTrigger (state : Nat)
  | actionSetId (state action : Nat) (id : Int32)
  | triggerSetStateIndex (state trigger : Nat) (v : Int32)
  | triggerSetEvaluator (state trigger : Nat) (ev : FfxEvaluatable)
  | resourceSetAdd (which : Nat) (value : Int32)

namespace FfxEffect

def modifyState (e : FfxEffect) (i : Nat) (f : FfxState → FfxState) : FfxEffect :=
  { e with stateMap := ⟨e.stateMap.states.modify i f⟩ }

def modifyAction (e : FfxEffect) (i j : Nat) (f : FfxAction → FfxAction) : FfxEffect :=
  e.modifyState i fun s => { s with actions := s.actions.modify j f }

def modifyTrigger (e : FfxEffect) (i j : Nat) (f : FfxTrigger → FfxTrigger) : FfxEffect :=
  e.modifyState i fun s => { s with triggers := s.triggers.modify j f }

/-- What a call that succeeds makes of the effect; one that fails leaves it as it is. -/
def after (e : FfxEffect) : FfxCall → FfxEffect
  | .effectSetId id => { e with id := id }
  | .paramListSetUnk04 .paramList1 v => { e with paramList1 := { e.paramList1 with unk04 := v } }
  | .paramListSetUnk04 .paramList2 v => { e with paramList2 := { e.paramList2 with unk04 := v } }
  | .paramListSetUnk04 (.action i j) v =>
    e.modifyAction i j fun a => { a with paramList := { a.paramList with unk04 := v } }
  | .stateMapAdd => { e with stateMap := ⟨e.stateMap.states ++ [⟨[], []⟩]⟩ }
  | .stateAddAction i => e.modifyState i fun s => { s with actions := s.actions ++ [⟨0, ⟨0, []⟩⟩] }
  | .stateAddTrigger i => e.modifyState i fun s => { s with triggers := s.triggers ++ [⟨0, none⟩] }
  | .actionSetId i j id => e.modifyAction i j fun a => { a with id := id }
  | .triggerSetStateIndex i j v => e.modifyTrigger i j fun t => { t with stateIndex := v }
  | .triggerSetEvaluator i j ev => e.modifyTrigger i j fun t => { t with evaluator := some ev }
  | .resourceSetAdd which value =>
    { e with
      resourceSet := ⟨e.resourceSet.vectors.modify which (· ++ [value]), by
        rw [List.length_modify, e.resourceSet.count]⟩ }

end FfxEffect

end SoulsFormats
