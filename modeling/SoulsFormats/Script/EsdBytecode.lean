import SoulsFormats.Core.Result

set_option autoImplicit false

/-! # Bytecode of ESD evaluators

The model of `esd_bytecode.c`. Operands are copied to and from the fields of a node as they stand in memory, so
that they are little-endian. The number of children of a node is an `int32_t`: counting past its end is undefined. -/

namespace SoulsFormats

open Bytes Fallible

/-- `sf_esd_opcode_t`. -/
inductive EsdOpcode where
  | unknown
  | «end» | pushInt | call | negate | not | abs | add | sub | mul | div | mod
  | eq | neq | gt | ge | lt | le | and | or | pushFloat | loadReg
deriving DecidableEq, Repr

/-- The opcode as the byte that is stored; the one of an unknown node is not. -/
def EsdOpcode.toUInt8 : EsdOpcode → UInt8
  | .unknown => 0xFF
  | .end => 0x00
  | .pushInt => 0x01
  | .call => 0x05
  | .negate => 0x06
  | .not => 0x07
  | .abs => 0x08
  | .add => 0x0A
  | .sub => 0x0B
  | .mul => 0x0C
  | .div => 0x0D
  | .mod => 0x0E
  | .eq => 0x23
  | .neq => 0x24
  | .gt => 0x25
  | .ge => 0x26
  | .lt => 0x27
  | .le => 0x28
  | .and => 0x40
  | .or => 0x41
  | .pushFloat => 0x48
  | .loadReg => 0x7C

/-- The opcodes that `sf_esd_bytecode_decode` has a case for. -/
def EsdOpcode.known : List EsdOpcode :=
  [.end, .pushInt, .call, .negate, .not, .abs, .add, .sub, .mul, .div, .mod, .eq, .neq, .gt, .ge, .lt, .le, .and,
    .or, .pushFloat, .loadReg]

/-- The case of a byte. -/
def EsdOpcode.ofUInt8 (op : UInt8) : Option EsdOpcode := EsdOpcode.known.find? (·.toUInt8 == op)

/-- `sf_esd_bytecode_node`; `floatValue` holds the bits. -/
structure EsdBytecodeNode where
  opcode : EsdOpcode
  intValue : Int32
  floatValue : UInt32
  callId : Int16
  regIndex : Int32
  rawBytes : List UInt8
  children : List EsdBytecodeNode

/-- A node after `memset`. -/
def EsdBytecodeNode.zero : EsdBytecodeNode where
  opcode := .end
  intValue := 0
  floatValue := 0
  callId := 0
  regIndex := 0
  rawBytes := []
  children := []

/-- `sf_esd_bytecode_tree`; there is no array `nodes` if it would be empty. -/
structure EsdBytecodeTree where
  root : EsdBytecodeNode
  nodes : List EsdBytecodeNode

/-! ## Decoding -/

section

variable (bytes : List UInt8)

/-- The `n` bytes of an operand. -/
def esdOperandAt (offset n : Nat) : Except SfError (List UInt8) :=
  if bytes.length < offset + n then .error .truncated else .ok ((bytes.drop offset).take n)

/-- The operand of a known opcode, and where the next instruction starts. -/
def esdReadOperand (offset : Nat) (opcode : EsdOpcode) : Except SfError (EsdBytecodeNode × Nat) :=
  let node := { EsdBytecodeNode.zero with opcode := opcode }
  match opcode with
  | .pushInt => do
    let bs ← esdOperandAt bytes offset 4
    pure ({ node with intValue := (UInt32.ofNat (wordNat false bs)).toInt32 }, offset + 4)
  | .call => do
    let bs ← esdOperandAt bytes offset 2
    pure ({ node with callId := (UInt16.ofNat (wordNat false bs)).toInt16 }, offset + 2)
  | .pushFloat => do
    let bs ← esdOperandAt bytes offset 4
    pure ({ node with floatValue := UInt32.ofNat (wordNat false bs) }, offset + 4)
  | .loadReg => do
    let bs ← esdOperandAt bytes offset 4
    pure ({ node with regIndex := (UInt32.ofNat (wordNat false bs)).toInt32 }, offset + 4)
  | _ => pure (node, offset)

/-- The instruction whose opcode is `op`; `offset` is behind the opcode. An unknown one takes all that is left. -/
def esdReadInstruction (offset : Nat) (op : UInt8) : Fallible Heap SfError (EsdBytecodeNode × Nat) :=
  match EsdOpcode.ofUInt8 op with
  | some opcode => lift (esdReadOperand bytes offset opcode)
  | none => do
    let _ ← Heap.alloc
    pure ({ EsdBytecodeNode.zero with opcode := .unknown, rawBytes := op :: bytes.drop offset }, bytes.length)

/-- `root->children` has room for one more; its capacity doubles. -/
def esdGrowChildren (childCount capacity : Nat) : Fallible Heap SfError Nat :=
  if capacity ≤ childCount then do
    let _ ← Heap.alloc
    pure (capacity * 2)
  else pure capacity

/-- The loop of `sf_esd_bytecode_decode`. -/
def esdDecodeLoop : Nat → Nat → Nat → List EsdBytecodeNode → Fallible Heap SfError (List EsdBytecodeNode)
  | 0, _, _, _ => fail .nonTermination
  | fuel + 1, offset, capacity, children =>
    match bytes[offset]? with
    | none => pure children
    | some op => do
      let capacity ← esdGrowChildren children.length capacity
      let _ ← Heap.alloc
      check (children.length < INT32_MAX) .undefinedBehaviour
      let (node, offset) ← esdReadInstruction bytes (offset + 1) op
      esdDecodeLoop fuel offset capacity (children ++ [node])

/-- `sf_esd_bytecode_decode`. -/
def esdBytecodeDecode : Fallible Heap SfError EsdBytecodeTree := do
  -- the tree, its root and the first array of children
  let _ ← Heap.alloc
  let _ ← Heap.alloc
  let _ ← Heap.alloc
  let children ← esdDecodeLoop bytes (bytes.length + 1) 0 16 []
  let root := { EsdBytecodeNode.zero with children := children }
  if children = [] then pure { root := root, nodes := [] }
  else do
    let _ ← Heap.alloc
    pure { root := root, nodes := children }

end

/-! ## Encoding -/

/-- `sf_esd_bytecode_buffer`, and the allocator. -/
structure EsdBytecodeBuffer where
  bytes : List UInt8
  capacity : Nat
  heap : Heap

abbrev EsdEncodeM := Fallible EsdBytecodeBuffer SfError

/-- The loop of `esd_bytecode_buffer_reserve`. -/
def esdGrownCapacity (needed : Nat) : Nat → Nat → Nat
  | 0, capacity => capacity
  | fuel + 1, capacity =>
    if capacity < needed then
      if SIZE_MAX / 2 < capacity then needed else esdGrownCapacity needed fuel (capacity * 2)
    else capacity

/-- `esd_bytecode_buffer_reserve`. The capacity starts at 32 or more, so that it doubles at most 60 times. -/
def esdBytecodeBufferReserve (additional : Nat) : EsdEncodeM Unit := do
  let size ← peek fun b => b.bytes.length
  let capacity ← peek EsdBytecodeBuffer.capacity
  check (additional ≤ SIZE_MAX - size) .outOfRange
  if size + additional ≤ capacity then pure ()
  else do
    let _ ← zoom EsdBytecodeBuffer.heap (fun heap b => { b with heap := heap }) Heap.alloc
    let capacity := esdGrownCapacity (size + additional) 64 (if capacity = 0 then 32 else capacity)
    update fun b => { b with capacity := capacity }

/-- `esd_bytecode_buffer_write`. -/
def esdBytecodeBufferWrite (bs : List UInt8) : EsdEncodeM Unit := do
  esdBytecodeBufferReserve bs.length
  update fun b => { b with bytes := b.bytes ++ bs }

/-- The bytes of the operand that a node's opcode has. -/
def EsdBytecodeNode.operandBytes (node : EsdBytecodeNode) : List UInt8 :=
  match node.opcode with
  | .pushInt => wordBytes false 4 node.intValue.toUInt32.toNat
  | .call => wordBytes false 2 node.callId.toUInt16.toNat
  | .pushFloat => wordBytes false 4 node.floatValue.toNat
  | .loadReg => wordBytes false 4 node.regIndex.toUInt32.toNat
  | _ => []

/-- The opcode and, if it has one, the operand. -/
def esdEncodeInstruction (node : EsdBytecodeNode) : EsdEncodeM Unit := do
  esdBytecodeBufferWrite [node.opcode.toUInt8]
  if node.operandBytes = [] then pure () else esdBytecodeBufferWrite node.operandBytes

mutual

/-- `esd_bytecode_encode_node`. -/
def esdBytecodeEncodeNode : EsdBytecodeNode → EsdEncodeM Unit
  | ⟨opcode, intValue, floatValue, callId, regIndex, rawBytes, children⟩ =>
    if opcode = .unknown then esdBytecodeBufferWrite rawBytes
    else do
      esdEncodeInstruction ⟨opcode, intValue, floatValue, callId, regIndex, rawBytes, []⟩
      esdEncodeNodes children

def esdEncodeNodes : List EsdBytecodeNode → EsdEncodeM Unit
  | [] => pure ()
  | node :: nodes => do
    esdBytecodeEncodeNode node
    esdEncodeNodes nodes

end

/-- `sf_esd_bytecode_encode`. -/
def esdBytecodeEncode (tree : EsdBytecodeTree) : Fallible Heap SfError (List UInt8) := do
  let heap ← state
  let nodes := if tree.nodes = [] then tree.root.children else tree.nodes
  let run := esdEncodeNodes nodes { bytes := [], capacity := 0, heap := heap }
  update fun _ => run.2.heap
  lift run.1
  pure run.2.bytes

end SoulsFormats
