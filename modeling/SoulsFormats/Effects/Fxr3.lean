import SoulsFormats.Core.Result
import SoulsFormats.Library.Bytes
import SoulsFormats.Library.Fallible

set_option autoImplicit false

/-! # FXR3 effects

The model of the binary reader of `fxr3.c`. The state of a run is the position of an `fxr3_reader_t` and the allocator;
a copy of the reader is `fork`, which leaves the position where it is. -/

namespace SoulsFormats

open Bytes Fallible

/-! ## Effects -/

/-- `sf_fxr3_field`; a float by its bits. -/
inductive Fxr3Field where
  | int (value : Int32)
  | float (value : UInt32)
deriving DecidableEq, Repr

/-- `sf_fxr3_operand_type_t`. -/
inductive Fxr3OperandType where
  | literal | external | timeOfDay | stateTime
deriving DecidableEq, Repr

/-- `sf_fxr3_operand`, a type with the value that the type has. -/
inductive Fxr3Operand where
  | literal (value : UInt32)
  | external (value : Int32)
  | timeOfDay
  | stateTime
deriving DecidableEq, Repr

/-- `sf_fxr3_operator_type_t`. -/
inductive Fxr3OperatorType where
  | notEqual | equal | ge | gt | le | lt
deriving DecidableEq, Repr

/-- `sf_fxr3_state_condition`. -/
structure Fxr3StateCondition where
  operatorType : Fxr3OperatorType
  unkModifier : UInt8
  leftOperand : Fxr3Operand
  rightOperand : Fxr3Operand
  nextState : Int32
deriving DecidableEq

/-- `sf_fxr3_state`. -/
structure Fxr3State where
  conditions : List Fxr3StateCondition
deriving DecidableEq

/-- `sf_fxr3_state_map`. -/
structure Fxr3StateMap where
  states : List Fxr3State
deriving DecidableEq

mutual

/-- `sf_fxr3_property`; the type and the interpolation are numbers of 2 and of 4 bits. -/
inductive Fxr3Property where
  | mk (type interpolation : UInt8) (isLoop : Bool) (fields : List Fxr3Field) (modifiers : List Fxr3PropertyModifier)

/-- `sf_fxr3_property_modifier`. -/
inductive Fxr3PropertyModifier where
  | mk (typeEnumA : UInt16) (typeEnumB : UInt32) (fields : List Fxr3Field) (properties : List Fxr3Property)

end

/-- `sf_fxr3_unk_field_list`. -/
structure Fxr3UnkFieldList where
  fields : List Fxr3Field
deriving DecidableEq

/-- `sf_fxr3_action`. -/
structure Fxr3Action where
  id : Int16
  unk02 : Bool
  unk03 : Bool
  unk04 : Int32
  fields1 : List Fxr3Field
  fields2 : List Fxr3Field
  properties : List Fxr3Property
  property1Count : Nat
  unkFieldLists : List Fxr3UnkFieldList

/-- `sf_fxr3_effect`. -/
structure Fxr3Effect where
  id : Int16
  actions : List Fxr3Action

/-- `sf_fxr3_container`. -/
inductive Fxr3Container where
  | mk (id : Int16) (children : List Fxr3Container) (effects : List Fxr3Effect) (actions : List Fxr3Action)

/-- `sf_fxr3_version_t`. -/
inductive Fxr3Version where
  | darkSouls3 | sekiro
deriving DecidableEq, Repr

/-- `sf_fxr3`. -/
structure Fxr3 where
  version : Fxr3Version
  id : Int32
  rootStateMap : Fxr3StateMap
  rootContainer : Fxr3Container
  references : List Int32
  externalValues : List Int32
  unkBloodEnablers : List Int32

/-! ## The reader -/

/-- The position of an `fxr3_reader_t`, and the allocator. -/
structure Fxr3Cursor where
  pos : Nat
  heap : Heap
deriving DecidableEq

namespace Fxr3Reader

/-- A computation with a copy of the reader. -/
def fork {ε α : Type} (m : Fallible Fxr3Cursor ε α) : Fallible Fxr3Cursor ε α := fun c =>
  ((m c).1, { c with heap := (m c).2.heap })

/-- As many rounds as are counted, with their indices from `i` on. -/
def collect {σ ε α : Type} (f : Nat → Fallible σ ε α) : Nat → Nat → Fallible σ ε (List α)
  | 0, _ => pure []
  | count + 1, i => do
    let a ← f i
    let rest ← collect f count (i + 1)
    pure (a :: rest)

/-- A part that always returns: its errors are error codes, where nothing stands for a call that does not return. -/
def answered {σ ε α : Type} (m : Fallible σ ε α) : Fallible σ (Option ε) α := fun s =>
  ((m s).1.mapError some, (m s).2)

/-! ## Blocks -/

/-- `sf_xalloc` and `zalloc`; a block holds what is written to it before anything is read from it. -/
def zalloc : Fallible Fxr3Cursor SfError Unit := do
  let _ ← zoom Fxr3Cursor.heap (fun h c => { c with heap := h }) Heap.alloc
  pure ()

/-- A block for `count` elements of `size` bytes, if there are any. -/
def allocElements (size count : Nat) : Fallible Fxr3Cursor SfError Unit :=
  given (count ≠ 0) () do
    check (count ≤ SIZE_MAX / size) .outOfRange
    zalloc

/-- `alloc_ptrs`. -/
def allocPtrs (count : Nat) : Fallible Fxr3Cursor SfError Unit := allocElements 8 count

/-- `alloc_fields`. -/
def allocFields (count : Nat) : Fallible Fxr3Cursor SfError Unit := allocElements 8 count

/-! ## Numbers -/

section

variable (data : List UInt8)

/-- `rd_need`. -/
def rdNeed (n : Nat) : Fallible Fxr3Cursor SfError Unit := do
  let pos ← peek Fxr3Cursor.pos
  check (pos ≤ data.length ∧ n ≤ data.length - pos) .truncated

/-- `rd_seek`. -/
def rdSeek (off : Int32) : Fallible Fxr3Cursor SfError Unit := do
  check (0 ≤ off.toInt ∧ off.toInt ≤ data.length) .truncated
  update fun c => { c with pos := off.toInt.toNat }

/-- The next `n` bytes, as a number. -/
def rdWord (n : Nat) : Fallible Fxr3Cursor SfError Nat := do
  rdNeed data n
  let pos ← peek Fxr3Cursor.pos
  update fun c => { c with pos := c.pos + n }
  pure (leNat ((data.drop pos).take n))

/-- `rd_u8`. -/
def rdU8 : Fallible Fxr3Cursor SfError UInt8 := do
  let v ← rdWord data 1
  pure (UInt8.ofNat v)

/-- `rd_bool`. -/
def rdBool : Fallible Fxr3Cursor SfError Bool := do
  let v ← rdU8 data
  pure (v != 0)

/-- `rd_u16`. -/
def rdU16 : Fallible Fxr3Cursor SfError UInt16 := do
  let v ← rdWord data 2
  pure (UInt16.ofNat v)

/-- `rd_i16`. -/
def rdI16 : Fallible Fxr3Cursor SfError Int16 := do
  let v ← rdU16 data
  pure v.toInt16

/-- `rd_u32`. -/
def rdU32 : Fallible Fxr3Cursor SfError UInt32 := do
  let v ← rdWord data 4
  pure (UInt32.ofNat v)

/-- `rd_i32`. -/
def rdI32 : Fallible Fxr3Cursor SfError Int32 := do
  let v ← rdU32 data
  pure v.toInt32

/-- `rd_f32`, the bits. -/
def rdF32 : Fallible Fxr3Cursor SfError UInt32 := rdU32 data

/-- `rd_expect_u8`. -/
def rdExpectU8 (expect : UInt8) : Fallible Fxr3Cursor SfError Unit := do
  let v ← rdU8 data
  check (v = expect) .badMagic

/-- `rd_expect_i16`. -/
def rdExpectI16 (expect : Int16) : Fallible Fxr3Cursor SfError Unit := do
  let v ← rdI16 data
  check (v = expect) .badMagic

/-- `rd_expect_i32`. -/
def rdExpectI32 (expect : Int32) : Fallible Fxr3Cursor SfError Unit := do
  let v ← rdI32 data
  check (v = expect) .badMagic

/-- `i32_to_size`. -/
def i32ToSize (v : Int32) : Fallible Fxr3Cursor SfError Nat := do
  check (0 ≤ v.toInt) .outOfRange
  pure v.toInt.toNat

/-- The loop over what stands at an offset, with a copy of the reader. Without a round there is no seek. -/
def rdEachAt {α : Type} (offset : Int32) (count : Nat) (f : Nat → Fallible Fxr3Cursor SfError α) :
    Fallible Fxr3Cursor SfError (List α) :=
  fork do
    let _ ← given (0 < count) () (rdSeek data offset)
    collect f count 0

/-! ## Fields -/

def SF_FXR3_INTERP_CONSTANT : UInt8 := 2

def SF_FXR3_INTERP_UNK_AC6 : UInt8 := 7

/-- Whether `read_field` knows from the property that the field is an integer. -/
def fieldIsInt (prop : Option (UInt8 × UInt8)) (index : Nat) : Bool :=
  match prop with
  | none => false
  | some (type, interpolation) =>
    if interpolation = SF_FXR3_INTERP_UNK_AC6 then 0 < index && index ≤ type.toNat + 1
    else interpolation != SF_FXR3_INTERP_CONSTANT && index == 0

/-- Whether the magnitude of a float, by its bits, is at least `1e-4f` and below `1e6f`. -/
def looksLikeFloat (bits : UInt32) : Bool :=
  let magnitude := bits.toNat % 2 ^ 31
  0x38D1B717 ≤ magnitude && magnitude < 0x49742400

/-- `read_field`; of the property only its type and its interpolation are looked at. -/
def readField (prop : Option (UInt8 × UInt8)) (index : Nat) : Fallible Fxr3Cursor SfError Fxr3Field :=
  if fieldIsInt prop index then do
    let value ← rdI32 data
    pure (.int value)
  else do
    let peek ← fork (rdF32 data)
    if looksLikeFloat peek then do
      let value ← rdF32 data
      pure (.float value)
    else do
      let value ← rdI32 data
      pure (.int value)

/-- `read_fields_at`. -/
def readFieldsAt (offset : Int32) (count : Nat) (prop : Option (UInt8 × UInt8)) :
    Fallible Fxr3Cursor SfError (List Fxr3Field) := do
  allocFields count
  rdEachAt data offset count (readField data prop)

/-! ## States -/

/-- `read_operand_at`. -/
def readOperandAt (type : Fxr3OperandType) (hasField : Bool) (offset : Int32) : Fallible Fxr3Cursor SfError Fxr3Operand :=
  if hasField then
    fork do
      rdSeek data offset
      match type with
      | .literal => do
        let value ← rdF32 data
        pure (.literal value)
      | .external => do
        let value ← rdI32 data
        pure (.external value)
      | _ => fail .invalidArg
  else
    match type with
    | .literal | .external => fail .invalidArg
    | .timeOfDay => pure .timeOfDay
    | .stateTime => pure .stateTime

/-- `read_operand_type`. -/
def readOperandType : Fallible Fxr3Cursor SfError Fxr3OperandType := do
  let raw ← rdI16 data
  if raw = -4 then pure .literal
  else if raw = -3 then pure .external
  else if raw = -2 then pure .timeOfDay
  else if raw = -1 then pure .stateTime
  else fail .invalidArg

/-- The half of a condition that is about one operand: its type, whether it has a field, and where. -/
def readOperandHead : Fallible Fxr3Cursor SfError (Fxr3OperandType × Bool × Int32) := do
  let type ← readOperandType data
  rdExpectU8 data 0
  rdExpectU8 data 1
  rdExpectI32 data 0
  let hasField ← rdI32 data
  check (hasField = 0 ∨ hasField = 1) .invalidArg
  rdExpectI32 data 0
  let offset ← rdI32 data
  let _ ← collect (fun _ => rdExpectI32 data 0) 5 0
  pure (type, hasField == 1, offset)

/-- The operator of the low two bits. -/
def operatorOfBits (op : Nat) : Fxr3OperatorType :=
  match op % 4 with
  | 0 => .notEqual
  | 1 => .equal
  | 2 => .ge
  | _ => .gt

/-- A literal that stands on the left of what is not one changes sides. -/
def orderOperands (c : Fxr3StateCondition) : Fxr3StateCondition :=
  match c.leftOperand, c.rightOperand with
  | .literal _, .literal _ => c
  | .literal _, right =>
    { c with
      leftOperand := right
      rightOperand := c.leftOperand
      operatorType :=
        match c.operatorType with
        | .gt => .lt
        | .ge => .le
        | op => op }
  | _, _ => c

/-- `read_condition`. -/
def readCondition : Fallible Fxr3Cursor SfError Fxr3StateCondition := do
  zalloc
  let op ← rdI16 data
  rdExpectU8 data 0
  rdExpectU8 data 1
  rdExpectI32 data 0
  let nextState ← rdI32 data
  rdExpectI32 data 0
  let (leftType, hasLeft, leftOffset) ← readOperandHead data
  let (rightType, hasRight, rightOffset) ← readOperandHead data
  let left ← readOperandAt data leftType hasLeft leftOffset
  let right ← readOperandAt data rightType hasRight rightOffset
  pure (orderOperands
    { operatorType := operatorOfBits op.toUInt16.toNat
      unkModifier := UInt8.ofNat (op.toUInt16.toNat / 4 % 4)
      leftOperand := left
      rightOperand := right
      nextState := nextState })

/-- The record of a state and of a state map, and the array for it: how many things stand at which offset. -/
def readCountAndOffset : Fallible Fxr3Cursor SfError (Nat × Int32) := do
  zalloc
  rdExpectI32 data 0
  let count ← rdI32 data
  let offset ← rdI32 data
  rdExpectI32 data 0
  let count ← i32ToSize count
  allocPtrs count
  pure (count, offset)

/-- `read_state`. -/
def readState : Fallible Fxr3Cursor SfError Fxr3State := do
  let (count, offset) ← readCountAndOffset data
  let conditions ← rdEachAt data offset count fun _ => readCondition data
  pure { conditions := conditions }

/-- `read_state_map`. -/
def readStateMap : Fallible Fxr3Cursor SfError Fxr3StateMap := do
  let (count, offset) ← readCountAndOffset data
  let states ← rdEachAt data offset count fun _ => readState data
  pure { states := states }

/-! ## Properties -/

/-- `read_property`, with what reads the modifiers of a property that is not conditional. -/
def readPropertyWith (readModifiers : Fallible Fxr3Cursor SfError (List Fxr3PropertyModifier)) :
    Fallible Fxr3Cursor SfError Fxr3Property := do
  zalloc
  let typeA ← rdI16 data
  rdExpectU8 data 0
  rdExpectU8 data 1
  let bits := typeA.toUInt16.toNat
  let type := UInt8.ofNat (bits % 4)
  let interpolation := UInt8.ofNat (bits / 16 % 16)
  let _ ← rdI32 data
  let fieldCount ← rdI32 data
  rdExpectI32 data 0
  let fieldOffset ← rdI32 data
  rdExpectI32 data 0
  let fieldCount ← i32ToSize fieldCount
  let modifiers ← readModifiers
  let fields ← readFieldsAt data fieldOffset fieldCount (some (type, interpolation))
  pure (.mk type interpolation (bits / 4096 % 2 == 1) fields modifiers)

/-- `read_modifier`; its properties are conditional. -/
def readModifier : Fallible Fxr3Cursor SfError Fxr3PropertyModifier := do
  zalloc
  let typeEnumA ← rdU16 data
  rdExpectU8 data 0
  rdExpectU8 data 1
  let typeEnumB ← rdU32 data
  let fieldCount ← rdI32 data
  let propCount ← rdI32 data
  let fieldOffset ← rdI32 data
  rdExpectI32 data 0
  let propOffset ← rdI32 data
  rdExpectI32 data 0
  let fieldCount ← i32ToSize fieldCount
  let propCount ← i32ToSize propCount
  allocPtrs propCount
  let properties ← rdEachAt data propOffset propCount fun _ => readPropertyWith data (pure [])
  let fields ← readFieldsAt data fieldOffset fieldCount none
  pure (.mk typeEnumA typeEnumB fields properties)

/-- The modifiers in `read_property`. -/
def readModifiers : Fallible Fxr3Cursor SfError (List Fxr3PropertyModifier) := do
  let modOffset ← rdI32 data
  rdExpectI32 data 0
  let modCount ← rdI32 data
  rdExpectI32 data 0
  let modCount ← i32ToSize modCount
  allocPtrs modCount
  rdEachAt data modOffset modCount fun _ => readModifier data

/-- `read_property`. -/
def readProperty (conditional : Bool) : Fallible Fxr3Cursor SfError Fxr3Property :=
  readPropertyWith data (if conditional then pure [] else readModifiers data)

/-! ## Actions, effects and containers -/

/-- `read_unk_field_list`. -/
def readUnkFieldList : Fallible Fxr3Cursor SfError Fxr3UnkFieldList := do
  zalloc
  let offset ← rdI32 data
  rdExpectI32 data 0
  let count ← rdI32 data
  rdExpectI32 data 0
  let count ← i32ToSize count
  let fields ← readFieldsAt data offset count none
  pure { fields := fields }

/-- `read_action`. Both lists of fields stand one behind the other. -/
def readAction : Fallible Fxr3Cursor SfError Fxr3Action := do
  zalloc
  let id ← rdI16 data
  let unk02 ← rdBool data
  let unk03 ← rdBool data
  let unk04 ← rdI32 data
  let f1c ← rdI32 data
  let ulc ← rdI32 data
  let p1c ← rdI32 data
  let f2c ← rdI32 data
  rdExpectI32 data 0
  let p2c ← rdI32 data
  let fieldOff ← rdI32 data
  rdExpectI32 data 0
  let ulOff ← rdI32 data
  rdExpectI32 data 0
  let propOff ← rdI32 data
  let _ ← collect (fun _ => rdExpectI32 data 0) 3 0
  let field1Count ← i32ToSize f1c
  let field2Count ← i32ToSize f2c
  let unkFieldListCount ← i32ToSize ulc
  let property1Count ← i32ToSize p1c
  let p2 ← i32ToSize p2c
  check (property1Count ≤ SIZE_MAX - p2) .outOfRange
  allocPtrs (property1Count + p2)
  allocPtrs unkFieldListCount
  let properties ← rdEachAt data propOff (property1Count + p2) fun _ => readProperty data false
  let unkFieldLists ← rdEachAt data ulOff unkFieldListCount fun _ => readUnkFieldList data
  let (fields1, fields2) ← fork do
    let _ ← given (0 < field1Count || 0 < field2Count) () (rdSeek data fieldOff)
    allocFields field1Count
    let fields1 ← collect (readField data none) field1Count 0
    allocFields field2Count
    let fields2 ← collect (readField data none) field2Count 0
    pure (fields1, fields2)
  pure
    { id := id
      unk02 := unk02
      unk03 := unk03
      unk04 := unk04
      fields1 := fields1
      fields2 := fields2
      properties := properties
      property1Count := property1Count
      unkFieldLists := unkFieldLists }

/-- `read_effect`. -/
def readEffect : Fallible Fxr3Cursor SfError Fxr3Effect := do
  zalloc
  let id ← rdI16 data
  rdExpectU8 data 0
  rdExpectU8 data 1
  rdExpectI32 data 0
  rdExpectI32 data 0
  let count ← rdI32 data
  rdExpectI32 data 0
  rdExpectI32 data 0
  let offset ← rdI32 data
  rdExpectI32 data 0
  let count ← i32ToSize count
  allocPtrs count
  let actions ← rdEachAt data offset count fun _ => readAction data
  pure { id := id, actions := actions }

/-- The counts and the offsets in the record of a container. -/
structure Fxr3ContainerHead where
  id : Int16
  effectCount : Nat
  actionCount : Nat
  childCount : Nat
  effectOff : Int32
  actionOff : Int32
  childOff : Int32
deriving DecidableEq

/-- The record of a container, and the arrays for what it counts. -/
def readContainerHead : Fallible Fxr3Cursor SfError Fxr3ContainerHead := do
  zalloc
  let id ← rdI16 data
  rdExpectU8 data 0
  rdExpectU8 data 1
  rdExpectI32 data 0
  let effectCount ← rdI32 data
  let actionCount ← rdI32 data
  let childCount ← rdI32 data
  rdExpectI32 data 0
  let effectOff ← rdI32 data
  rdExpectI32 data 0
  let actionOff ← rdI32 data
  rdExpectI32 data 0
  let childOff ← rdI32 data
  rdExpectI32 data 0
  let effectCount ← i32ToSize effectCount
  let actionCount ← i32ToSize actionCount
  let childCount ← i32ToSize childCount
  allocPtrs childCount
  allocPtrs effectCount
  allocPtrs actionCount
  pure
    { id := id
      effectCount := effectCount
      actionCount := actionCount
      childCount := childCount
      effectOff := effectOff
      actionOff := actionOff
      childOff := childOff }

/-- The seek to the children, if there are any. -/
def seekChildren (head : Fxr3ContainerHead) : Fallible Fxr3Cursor SfError Unit :=
  given (0 < head.childCount) () (rdSeek data head.childOff)

/-- `read_container`, with as many calls nested as `fuel` allows. -/
def readContainer : Nat → Fallible Fxr3Cursor (Option SfError) Fxr3Container
  | 0 => fail none
  | fuel + 1 => do
    let head ← answered (readContainerHead data)
    let children ← fork do
      answered (seekChildren data head)
      collect (fun _ => readContainer fuel) head.childCount 0
    let effects ← answered (rdEachAt data head.effectOff head.effectCount fun _ => readEffect data)
    let actions ← answered (rdEachAt data head.actionOff head.actionCount fun _ => readAction data)
    pure (.mk head.id children effects actions)

/-! ## Files -/

/-- `read_i32_array`. -/
def readI32Array (offset count : Int32) : Fallible Fxr3Cursor SfError (List Int32) := do
  let count ← i32ToSize count
  allocElements 4 count
  rdEachAt data offset count fun _ => rdI32 data

/-- What `sf_fxr3_read_from_memory` has read when it comes to the containers. -/
structure Fxr3Preamble where
  version : Fxr3Version
  id : Int32
  references : List Int32
  externalValues : List Int32
  unkBloodEnablers : List Int32
  rootStateMap : Fxr3StateMap
deriving DecidableEq

/-- The tables of the later version. -/
def readFxr3Tables (version : Fxr3Version) : Fallible Fxr3Cursor SfError (List Int32 × List Int32 × List Int32) :=
  match version with
  | .darkSouls3 => pure ([], [], [])
  | .sekiro => do
    let refOff ← rdI32 data
    let refCount ← rdI32 data
    let extOff ← rdI32 data
    let extCount ← rdI32 data
    let bloodOff ← rdI32 data
    let bloodCount ← rdI32 data
    let _ ← rdI32 data
    rdExpectI32 data 0
    let references ← readI32Array data refOff refCount
    let externalValues ← readI32Array data extOff extCount
    let unkBloodEnablers ← readI32Array data bloodOff bloodCount
    pure (references, externalValues, unkBloodEnablers)

/-- `sf_fxr3_read_from_memory` up to the containers; the reader is left where the root container starts. -/
def readFxr3Preamble : Fallible Fxr3Cursor SfError Fxr3Preamble := do
  zalloc
  given (data.length ≠ 0) () zalloc
  rdNeed data 4
  check (data.take 4 = cstr "FXR" ++ [0]) .badMagic
  update fun c => { c with pos := 4 }
  rdExpectI16 data 0
  let version ← rdU16 data
  check (version = 4 ∨ version = 5) .unsupportedVersion
  let version : Fxr3Version := if version = 4 then .darkSouls3 else .sekiro
  rdExpectI32 data 1
  let id ← rdI32 data
  let sections ← collect (fun _ => do
    let offset ← rdI32 data
    let count ← rdI32 data
    pure (offset, count)) 11 0
  check ((sections.getD 0 (0, 0)).2 = 1) .invalidArg
  rdExpectI32 data 1
  rdExpectI32 data 0
  let (references, externalValues, unkBloodEnablers) ← readFxr3Tables data version
  let rootStateMap ← fork do
    rdSeek data (sections.getD 0 (0, 0)).1
    readStateMap data
  rdSeek data (sections.getD 3 (0, 0)).1
  pure
    { version := version
      id := id
      references := references
      externalValues := externalValues
      unkBloodEnablers := unkBloodEnablers
      rootStateMap := rootStateMap }

/-- What `sf_fxr3_read_from_memory` does with its reader. -/
def readFxr3 (fuel : Nat) : Fallible Fxr3Cursor (Option SfError) Fxr3 := do
  let preamble ← answered (readFxr3Preamble data)
  let rootContainer ← readContainer data fuel
  pure
    { version := preamble.version
      id := preamble.id
      rootStateMap := preamble.rootStateMap
      rootContainer := rootContainer
      references := preamble.references
      externalValues := preamble.externalValues
      unkBloodEnablers := preamble.unkBloodEnablers }

/-- `sf_fxr3_read_from_memory`. -/
def fxr3ReadFromMemory (fuel : Nat) : Fallible Heap (Option SfError) Fxr3 := fun heap =>
  ((readFxr3 data fuel ⟨0, heap⟩).1, (readFxr3 data fuel ⟨0, heap⟩).2.heap)

end

end Fxr3Reader

end SoulsFormats
