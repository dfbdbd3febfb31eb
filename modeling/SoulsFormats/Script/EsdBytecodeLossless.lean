import SoulsFormats.Script.EsdBytecode

set_option autoImplicit false

/-! # Decoding ESD bytecode loses nothing

`EsdUntruncated` reads instructions from left to right up to the first unknown opcode. The decoder accepts exactly
the byte strings that have it, and the encoder gives them back, as long as there are not more instructions than an
`int32_t` counts. -/

namespace SoulsFormats

open Bytes Fallible

/-! ## Instructions -/

/-- The width of the operand of an opcode. -/
def EsdOpcode.operandWidth : EsdOpcode → Nat
  | .pushInt => 4
  | .pushFloat => 4
  | .loadReg => 4
  | .call => 2
  | _ => 0

/-- No operand runs past the end, up to the first unknown opcode. -/
inductive EsdUntruncated : List UInt8 → Prop where
  | done : EsdUntruncated []
  | unknown {op : UInt8} {rest : List UInt8} (hop : EsdOpcode.ofUInt8 op = none) : EsdUntruncated (op :: rest)
  | known {op : UInt8} {opcode : EsdOpcode} {rest : List UInt8} (hop : EsdOpcode.ofUInt8 op = some opcode)
      (hwidth : opcode.operandWidth ≤ rest.length) (hrest : EsdUntruncated (rest.drop opcode.operandWidth)) :
      EsdUntruncated (op :: rest)

theorem length_drop_lt_cons (op : UInt8) (rest : List UInt8) (n : Nat) : (rest.drop n).length < (op :: rest).length := by
  rw [List.length_drop, List.length_cons]
  omega

/-- The number of opcodes that are read, up to the first unknown one or the first one whose operand is cut off. -/
def esdInstructions : List UInt8 → Nat
  | [] => 0
  | op :: rest =>
    match EsdOpcode.ofUInt8 op with
    | none => 1
    | some opcode =>
      if rest.length < opcode.operandWidth then 1 else 1 + esdInstructions (rest.drop opcode.operandWidth)
termination_by b => b.length
decreasing_by exact length_drop_lt_cons op rest opcode.operandWidth

theorem esdInstructions_unknown {op : UInt8} {rest : List UInt8} (hop : EsdOpcode.ofUInt8 op = none) :
    esdInstructions (op :: rest) = 1 := by
  rw [esdInstructions, hop]

theorem esdInstructions_truncated {op : UInt8} {opcode : EsdOpcode} {rest : List UInt8}
    (hop : EsdOpcode.ofUInt8 op = some opcode) (hwidth : rest.length < opcode.operandWidth) :
    esdInstructions (op :: rest) = 1 := by
  rw [esdInstructions, hop]
  exact if_pos hwidth

theorem esdInstructions_known {op : UInt8} {opcode : EsdOpcode} {rest : List UInt8}
    (hop : EsdOpcode.ofUInt8 op = some opcode) (hwidth : opcode.operandWidth ≤ rest.length) :
    esdInstructions (op :: rest) = 1 + esdInstructions (rest.drop opcode.operandWidth) := by
  rw [esdInstructions, hop]
  exact if_neg (by omega)

theorem esdInstructions_pos (op : UInt8) (rest : List UInt8) : 0 < esdInstructions (op :: rest) := by
  rw [esdInstructions]
  split
  · exact Nat.one_pos
  · split <;> omega

theorem not_untruncated {op : UInt8} {opcode : EsdOpcode} {rest : List UInt8}
    (hop : EsdOpcode.ofUInt8 op = some opcode) (hwidth : rest.length < opcode.operandWidth) :
    ¬ EsdUntruncated (op :: rest) := by
  rintro (_ | hnone | ⟨hsome, hle, -⟩)
  · rw [hop] at hnone
    cases hnone
  · rw [hop] at hsome
    cases hsome
    omega

theorem untruncated_known_iff {op : UInt8} {opcode : EsdOpcode} {rest : List UInt8}
    (hop : EsdOpcode.ofUInt8 op = some opcode) (hwidth : opcode.operandWidth ≤ rest.length) :
    EsdUntruncated (op :: rest) ↔ EsdUntruncated (rest.drop opcode.operandWidth) := by
  constructor
  · rintro (_ | hnone | ⟨hsome, -, hrest⟩)
    · rw [hop] at hnone
      cases hnone
    · rw [hop] at hsome
      cases hsome
      exact hrest
  · exact EsdUntruncated.known hop hwidth

theorem toUInt8_of_ofUInt8 {op : UInt8} {opcode : EsdOpcode} (h : EsdOpcode.ofUInt8 op = some opcode) :
    opcode.toUInt8 = op := by
  simpa using List.find?_some h

theorem ne_unknown_of_ofUInt8 {op : UInt8} {opcode : EsdOpcode} (h : EsdOpcode.ofUInt8 op = some opcode) :
    opcode ≠ .unknown := by
  rintro rfl
  exact absurd (List.mem_of_find?_eq_some h) (by decide)

/-! ## What a node stands for -/

/-- A node that the decoder makes has no children of its own. -/
def EsdBytecodeNode.Leaf (node : EsdBytecodeNode) : Prop := node.children = []

/-- The bytes that a leaf is encoded to. -/
def EsdBytecodeNode.image (node : EsdBytecodeNode) : List UInt8 :=
  if node.opcode = .unknown then node.rawBytes else node.opcode.toUInt8 :: node.operandBytes

theorem wordBytes_toUInt32 {bs : List UInt8} (h : bs.length = 4) :
    wordBytes false 4 (UInt32.ofNat (wordNat false bs)).toNat = bs := by
  have hlt := wordNat_lt false bs
  rw [h] at hlt
  rw [UInt32.toNat_ofNat_of_lt' hlt, ← h, wordBytes_wordNat]

theorem wordBytes_toUInt16 {bs : List UInt8} (h : bs.length = 2) :
    wordBytes false 2 (UInt16.ofNat (wordNat false bs)).toNat = bs := by
  have hlt := wordNat_lt false bs
  rw [h] at hlt
  rw [UInt16.toNat_ofNat_of_lt' hlt, ← h, wordBytes_wordNat]

section

variable {bytes : List UInt8} {offset : Nat}

theorem esdOperandAt_truncated {n : Nat} (h : bytes.length < offset + n) :
    esdOperandAt bytes offset n = .error .truncated := if_pos h

theorem esdOperandAt_eq {n : Nat} (h : offset + n ≤ bytes.length) :
    esdOperandAt bytes offset n = .ok ((bytes.drop offset).take n) := if_neg (by omega)

theorem esdReadOperand_truncated {opcode : EsdOpcode} (hoffset : offset ≤ bytes.length)
    (h : bytes.length < offset + opcode.operandWidth) : esdReadOperand bytes offset opcode = .error .truncated := by
  cases opcode with
  | pushInt | pushFloat | loadReg | call =>
      rw [EsdOpcode.operandWidth] at h
      rw [esdReadOperand, esdOperandAt_truncated h]
      rfl
  | _ =>
      change bytes.length < offset + 0 at h
      omega

/-- An operand that is all there is kept in the field of its opcode. -/
theorem esdReadOperand_eq (bytes : List UInt8) (offset : Nat) (opcode : EsdOpcode) (h : offset + opcode.operandWidth ≤ bytes.length) :
    ∃ node, esdReadOperand bytes offset opcode = .ok (node, offset + opcode.operandWidth) ∧
      node.opcode = opcode ∧ node.Leaf ∧ node.operandBytes = (bytes.drop offset).take opcode.operandWidth := by
  have hlen : ((bytes.drop offset).take opcode.operandWidth).length = opcode.operandWidth := by
    rw [List.length_take, List.length_drop]
    omega
  cases opcode with
  | pushInt | loadReg =>
      rw [EsdOpcode.operandWidth] at h hlen
      rw [esdReadOperand, esdOperandAt_eq h]
      refine ⟨_, rfl, rfl, rfl, ?_⟩
      simp only [EsdBytecodeNode.operandBytes, UInt32.toUInt32_toInt32]
      exact wordBytes_toUInt32 hlen
  | pushFloat =>
      rw [EsdOpcode.operandWidth] at h hlen
      rw [esdReadOperand, esdOperandAt_eq h]
      refine ⟨_, rfl, rfl, rfl, ?_⟩
      exact wordBytes_toUInt32 hlen
  | call =>
      rw [EsdOpcode.operandWidth] at h hlen
      rw [esdReadOperand, esdOperandAt_eq h]
      refine ⟨_, rfl, rfl, rfl, ?_⟩
      simp only [EsdBytecodeNode.operandBytes, UInt16.toUInt16_toInt16]
      exact wordBytes_toUInt16 hlen
  | _ => exact ⟨_, rfl, rfl, rfl, rfl⟩

/-! ## Decoding -/

theorem esdGrowChildren_calm (childCount capacity : Nat) {heap : Heap} (hcalm : heap.Calm) :
    ∃ capacity' heap', esdGrowChildren childCount capacity heap = (.ok capacity', heap') ∧ heap'.Calm := by
  unfold esdGrowChildren
  split
  · obtain ⟨junk, heap', halloc, hcalm'⟩ := Heap.alloc_calm hcalm
    exact ⟨_, _, by rw [bind_ok halloc]; rfl, hcalm'⟩
  · exact ⟨_, _, rfl, hcalm⟩

/-- One round, up to where the instruction is read. -/
theorem esdDecodeLoop_round {op : UInt8} {rest : List UInt8} (hrest : bytes.drop offset = op :: rest)
    (fuel capacity : Nat) (children : List EsdBytecodeNode) {heap : Heap} (hcalm : heap.Calm) :
    ∃ capacity' heap', heap'.Calm ∧ esdDecodeLoop bytes (fuel + 1) offset capacity children heap =
      (check (children.length < INT32_MAX) .undefinedBehaviour >>= fun _ =>
        esdReadInstruction bytes (offset + 1) op >>= fun r =>
          esdDecodeLoop bytes fuel r.2 capacity' (children ++ [r.1])) heap' := by
  have hop : bytes[offset]? = some op := by
    rw [← List.head?_drop, hrest, List.head?_cons]
  obtain ⟨capacity', h1, hgrow, hcalm1⟩ := esdGrowChildren_calm children.length capacity hcalm
  obtain ⟨junk, h2, halloc, hcalm2⟩ := Heap.alloc_calm hcalm1
  refine ⟨capacity', h2, hcalm2, ?_⟩
  rw [esdDecodeLoop, hop]
  dsimp only
  rw [bind_ok hgrow, bind_ok halloc]

/-- What the loop makes of the bytes from `offset` on, with fuel for each of them. The induction is on the fuel;
    every round takes an opcode and its operand off the rest. -/
theorem esdDecodeLoop_spec {fuel capacity : Nat} {children : List EsdBytecodeNode} {heap : Heap} {rest : List UInt8}
    (hrest : bytes.drop offset = rest) (hoffset : offset ≤ bytes.length) (hfuel : rest.length < fuel)
    (hcalm : heap.Calm) :
    (children.length + esdInstructions rest ≤ INT32_MAX →
      (EsdUntruncated rest → ∃ nodes heap', esdDecodeLoop bytes fuel offset capacity children heap =
          (.ok (children ++ nodes), heap') ∧ heap'.Calm ∧ (∀ node ∈ nodes, node.Leaf) ∧
          nodes.flatMap EsdBytecodeNode.image = rest) ∧
      (¬ EsdUntruncated rest →
        (esdDecodeLoop bytes fuel offset capacity children heap).1 = .error .truncated)) ∧
    (INT32_MAX < children.length + esdInstructions rest → children.length ≤ INT32_MAX →
      (esdDecodeLoop bytes fuel offset capacity children heap).1 = .error .undefinedBehaviour) := by
  induction fuel generalizing offset capacity children heap rest with
  | zero => exact absurd hfuel (Nat.not_lt_zero _)
  | succ fuel ih =>
      rcases rest with _ | ⟨op, rest⟩
      · have hend : bytes[offset]? = none := by
          rw [← List.head?_drop, hrest, List.head?_nil]
        rw [esdDecodeLoop, hend]
        refine ⟨fun _ => ⟨fun _ => ⟨[], heap, by simp, hcalm, by simp, rfl⟩, fun hno => absurd .done hno⟩, ?_⟩
        intro hmany hle
        rw [esdInstructions] at hmany
        omega
      · obtain ⟨capacity', h1, hcalm1, hround⟩ := esdDecodeLoop_round hrest fuel capacity children hcalm
        have hnext : bytes.drop (offset + 1) = rest := by
          rw [← List.drop_drop, hrest, List.drop_one, List.tail_cons]
        have hlen : rest.length = bytes.length - (offset + 1) := by rw [← hnext, List.length_drop]
        have hlt : offset + 1 ≤ bytes.length := by
          have := congrArg List.length hrest
          rw [List.length_drop, List.length_cons] at this
          omega
        have hfuel' : rest.length < fuel := by simpa using hfuel
        rw [hround]
        by_cases hroom : children.length < INT32_MAX
        · rw [check_bind_pos hroom]
          cases hop : EsdOpcode.ofUInt8 op with
          | none =>
              obtain ⟨junk, h2, halloc, hcalm2⟩ := Heap.alloc_calm hcalm1
              have hinstruction : esdReadInstruction bytes (offset + 1) op h1 =
                  (.ok ({ EsdBytecodeNode.zero with opcode := .unknown, rawBytes := op :: rest }, bytes.length),
                    h2) := by
                rw [esdReadInstruction, hop]
                dsimp only
                rw [bind_ok halloc, hnext]
                rfl
              obtain ⟨fuel, rfl⟩ : ∃ k, fuel = k + 1 := ⟨fuel - 1, by omega⟩
              have hend : bytes[bytes.length]? = none := by simp
              rw [bind_ok hinstruction, esdDecodeLoop, hend, esdInstructions_unknown hop]
              refine ⟨fun _ => ⟨fun _ => ⟨_, h2, rfl, hcalm2, ?_, ?_⟩, fun hno => absurd (.unknown hop) hno⟩, ?_⟩
              · simp [EsdBytecodeNode.Leaf, EsdBytecodeNode.zero]
              · simp [EsdBytecodeNode.image]
              · omega
          | some opcode =>
              have hinstruction : esdReadInstruction bytes (offset + 1) op =
                  lift (esdReadOperand bytes (offset + 1) opcode) := by
                rw [esdReadInstruction, hop]
              rw [hinstruction]
              by_cases hwidth : rest.length < opcode.operandWidth
              · rw [esdReadOperand_truncated hlt (by omega), bind_error (lift_run _ _),
                  esdInstructions_truncated hop hwidth]
                exact ⟨fun _ => ⟨fun h => absurd h (not_untruncated hop hwidth), fun _ => rfl⟩, by omega⟩
              · obtain ⟨node, hread, hopcode, hleaf, hoperand⟩ :=
                  esdReadOperand_eq bytes (offset + 1) opcode (by omega)
                have hdrop : bytes.drop (offset + 1 + opcode.operandWidth) = rest.drop opcode.operandWidth := by
                  rw [← List.drop_drop, hnext]
                have himage : node.image = op :: rest.take opcode.operandWidth := by
                  rw [EsdBytecodeNode.image, hopcode, if_neg (ne_unknown_of_ofUInt8 hop), toUInt8_of_ofUInt8 hop,
                    hoperand, hnext]
                obtain ⟨hfew, hmany⟩ := @ih _ capacity' (children ++ [node]) h1 _ hdrop (by omega)
                  (by rw [List.length_drop]; omega) hcalm1
                rw [List.length_append, List.length_singleton] at hfew hmany
                rw [hread, bind_ok (lift_run _ _), esdInstructions_known hop (by omega),
                  untruncated_known_iff hop (by omega)]
                refine ⟨fun hcount => ?_, fun hcount hle => hmany (by omega) (by omega)⟩
                obtain ⟨hok, htruncated⟩ := hfew (by omega)
                refine ⟨fun h => ?_, htruncated⟩
                obtain ⟨nodes, h2, hrun, hcalm2, hleaves, himages⟩ := hok h
                refine ⟨node :: nodes, h2, by rw [hrun, List.append_assoc]; rfl, hcalm2, ?_, ?_⟩
                · simpa using ⟨hleaf, hleaves⟩
                · rw [List.flatMap_cons, himage, himages, List.cons_append, List.take_append_drop]
        · have hpos := esdInstructions_pos op rest
          rw [check_bind_neg hroom]
          exact ⟨fun hcount => by omega, fun _ _ => rfl⟩

/-- What `sf_esd_bytecode_decode` makes of a byte string where the allocator grants everything. -/
theorem esdBytecodeDecode_spec (bytes : List UInt8) {heap : Heap} (hcalm : heap.Calm) :
    (esdInstructions bytes ≤ INT32_MAX →
      (EsdUntruncated bytes → ∃ tree heap', esdBytecodeDecode bytes heap = (.ok tree, heap') ∧
        (∀ node ∈ tree.root.children, node.Leaf) ∧ tree.nodes = tree.root.children ∧
        tree.root.children.flatMap EsdBytecodeNode.image = bytes) ∧
      (¬ EsdUntruncated bytes → (esdBytecodeDecode bytes heap).1 = .error .truncated)) ∧
    (INT32_MAX < esdInstructions bytes → (esdBytecodeDecode bytes heap).1 = .error .undefinedBehaviour) := by
  obtain ⟨_, h1, halloc1, hcalm1⟩ := Heap.alloc_calm hcalm
  obtain ⟨_, h2, halloc2, hcalm2⟩ := Heap.alloc_calm hcalm1
  obtain ⟨_, h3, halloc3, hcalm3⟩ := Heap.alloc_calm hcalm2
  obtain ⟨hfew, hmany⟩ := @esdDecodeLoop_spec bytes 0 (bytes.length + 1) 16 [] h3 bytes rfl (Nat.zero_le _)
    (Nat.lt_succ_self _) hcalm3
  rw [List.length_nil, Nat.zero_add] at hfew hmany
  unfold esdBytecodeDecode
  rw [bind_ok halloc1, bind_ok halloc2, bind_ok halloc3]
  refine ⟨fun hcount => ⟨fun hcomplete => ?_, fun hno => ?_⟩, fun hcount => ?_⟩
  · obtain ⟨nodes, h4, hrun, hcalm4, hleaves, himages⟩ := (hfew hcount).1 hcomplete
    rw [List.nil_append] at hrun
    rw [bind_ok hrun]
    dsimp only
    split
    · next hnil => exact ⟨_, h4, rfl, hleaves, hnil.symm, himages⟩
    · obtain ⟨_, h5, halloc5, -⟩ := Heap.alloc_calm hcalm4
      exact ⟨_, h5, by rw [bind_ok halloc5]; rfl, hleaves, rfl, himages⟩
  · have herror := (hfew hcount).2 hno
    rw [bind_error (Prod.ext herror rfl)]
  · have herror := hmany hcount (Nat.zero_le _)
    rw [bind_error (Prod.ext herror rfl)]

end

/-! ## Encoding -/

section

variable {buffer : EsdBytecodeBuffer}

/-- Writing to a buffer that the address space has room for. -/
theorem esdBytecodeBufferWrite_succeeds (bs : List UInt8) (hcalm : buffer.heap.Calm)
    (hroom : buffer.bytes.length + bs.length ≤ SIZE_MAX) :
    Succeeds (esdBytecodeBufferWrite bs) buffer fun _ buffer' =>
      buffer'.bytes = buffer.bytes ++ bs ∧ buffer'.heap.Calm := by
  unfold esdBytecodeBufferWrite
  refine Succeeds.bind (P := fun _ b => b.bytes = buffer.bytes ∧ b.heap.Calm) ?_ ?_
  · unfold esdBytecodeBufferReserve
    have hsize : bs.length ≤ SIZE_MAX - buffer.bytes.length := by omega
    rw [Succeeds]
    simp only [peek_bind_run, check_bind_pos hsize]
    split
    · exact ⟨(), buffer, rfl, rfl, hcalm⟩
    · obtain ⟨junk, heap', halloc, hcalm'⟩ := Heap.alloc_calm hcalm
      rw [bind_ok (zoom_run _ _ _ _ |>.trans (by rw [halloc]))]
      exact ⟨(), _, rfl, rfl, hcalm'⟩
  · rintro ⟨⟩ b ⟨hbytes, hcalm'⟩
    exact ⟨(), _, rfl, congrArg (· ++ bs) hbytes, hcalm'⟩

theorem esdEncodeInstruction_succeeds (node : EsdBytecodeNode) (hcalm : buffer.heap.Calm)
    (hroom : buffer.bytes.length + (node.opcode.toUInt8 :: node.operandBytes).length ≤ SIZE_MAX) :
    Succeeds (esdEncodeInstruction node) buffer fun _ buffer' =>
      buffer'.bytes = buffer.bytes ++ node.opcode.toUInt8 :: node.operandBytes ∧ buffer'.heap.Calm := by
  rw [List.length_cons] at hroom
  unfold esdEncodeInstruction
  refine Succeeds.bind (esdBytecodeBufferWrite_succeeds _ hcalm (by rw [List.length_singleton]; omega)) ?_
  rintro ⟨⟩ b ⟨hbytes, hcalm'⟩
  split
  · next hnone => exact ⟨(), b, rfl, by rw [hbytes, hnone], hcalm'⟩
  · have hroom' : b.bytes.length + node.operandBytes.length ≤ SIZE_MAX := by
      rw [hbytes, List.length_append, List.length_singleton]
      omega
    refine (esdBytecodeBufferWrite_succeeds _ hcalm' hroom').mono ?_
    rintro ⟨⟩ b' ⟨hbytes', hcalm''⟩
    exact ⟨by rw [hbytes', hbytes, List.append_assoc]; rfl, hcalm''⟩

theorem esdBytecodeEncodeNode_succeeds {node : EsdBytecodeNode} (hleaf : node.Leaf) (hcalm : buffer.heap.Calm)
    (hroom : buffer.bytes.length + node.image.length ≤ SIZE_MAX) :
    Succeeds (esdBytecodeEncodeNode node) buffer fun _ buffer' =>
      buffer'.bytes = buffer.bytes ++ node.image ∧ buffer'.heap.Calm := by
  obtain ⟨opcode, intValue, floatValue, callId, regIndex, rawBytes, children⟩ := node
  cases hleaf
  rw [EsdBytecodeNode.image] at hroom ⊢
  unfold esdBytecodeEncodeNode
  split
  · next hunknown =>
      rw [if_pos hunknown] at hroom
      exact esdBytecodeBufferWrite_succeeds rawBytes hcalm hroom
  · next hknown =>
      rw [if_neg hknown] at hroom
      refine Succeeds.bind (esdEncodeInstruction_succeeds _ hcalm hroom) ?_
      rintro ⟨⟩ b hb
      exact ⟨(), b, by rw [esdEncodeNodes]; rfl, hb⟩

theorem esdEncodeNodes_succeeds {nodes : List EsdBytecodeNode} (hleaves : ∀ node ∈ nodes, node.Leaf)
    (hcalm : buffer.heap.Calm)
    (hroom : buffer.bytes.length + (nodes.flatMap EsdBytecodeNode.image).length ≤ SIZE_MAX) :
    Succeeds (esdEncodeNodes nodes) buffer fun _ buffer' =>
      buffer'.bytes = buffer.bytes ++ nodes.flatMap EsdBytecodeNode.image ∧ buffer'.heap.Calm := by
  induction nodes generalizing buffer with
  | nil =>
      rw [esdEncodeNodes]
      exact Succeeds.pure ⟨by simp, hcalm⟩
  | cons node nodes ih =>
      rw [List.flatMap_cons, List.length_append] at hroom
      rw [esdEncodeNodes]
      refine Succeeds.bind (esdBytecodeEncodeNode_succeeds (hleaves node List.mem_cons_self) hcalm (by omega)) ?_
      rintro ⟨⟩ b ⟨hbytes, hcalm'⟩
      have hroom' : b.bytes.length + (nodes.flatMap EsdBytecodeNode.image).length ≤ SIZE_MAX := by
        rw [hbytes, List.length_append]
        omega
      refine (ih (fun n hn => hleaves n (List.mem_cons_of_mem _ hn)) hcalm' hroom').mono ?_
      rintro ⟨⟩ b' ⟨hbytes', hcalm''⟩
      exact ⟨by rw [hbytes', hbytes, List.append_assoc, List.flatMap_cons], hcalm''⟩

end

/-- A tree of leaves, which the decoder makes. -/
theorem esdBytecodeEncode_leaves {tree : EsdBytecodeTree} {bytes : List UInt8}
    (hleaves : ∀ node ∈ tree.root.children, node.Leaf) (hnodes : tree.nodes = tree.root.children)
    (himages : tree.root.children.flatMap EsdBytecodeNode.image = bytes) (hsize : bytes.length ≤ SIZE_MAX)
    {heap : Heap} (hcalm : heap.Calm) : (esdBytecodeEncode tree heap).1 = .ok bytes := by
  have hboth : (if tree.nodes = [] then tree.root.children else tree.nodes) = tree.root.children := by
    rw [hnodes, ite_self]
  obtain ⟨⟨⟩, b, hrun, hbytes, -⟩ := @esdEncodeNodes_succeeds { bytes := [], capacity := 0, heap := heap } _ hleaves
    hcalm (by simpa [himages] using hsize)
  unfold esdBytecodeEncode
  simp only [state_bind_run, update_bind_run, hboth, hrun, bind_ok (lift_run _ _), pure_run]
  rw [hbytes, List.nil_append, himages]

/-! ## The round trip -/

/-- Decoding accepts a byte string exactly if no operand is cut off, and what it accepts encodes to the same bytes
    (the allocator grants every request). -/
def EsdLossless (bytes : List UInt8) : Prop :=
  ∀ heap : Heap, heap.Calm →
    ((∃ tree, (esdBytecodeDecode bytes heap).1 = .ok tree) ↔ EsdUntruncated bytes) ∧
    (¬ EsdUntruncated bytes → (esdBytecodeDecode bytes heap).1 = .error .truncated) ∧
    ∀ tree, (esdBytecodeDecode bytes heap).1 = .ok tree →
      ∀ heap' : Heap, heap'.Calm → (esdBytecodeEncode tree heap').1 = .ok bytes

/-- The round trip holds exactly of the byte strings with at most `INT32_MAX` instructions. -/
theorem esdBytecode_lossless_iff (bytes : List UInt8) (hsize : bytes.length ≤ SIZE_MAX) :
    EsdLossless bytes ↔ esdInstructions bytes ≤ INT32_MAX := by
  constructor
  · intro h
    by_contra hmany
    obtain ⟨haccepts, hrejects, -⟩ := h [] Heap.calm_nil
    have herror := (esdBytecodeDecode_spec bytes Heap.calm_nil).2 (by omega)
    by_cases hcomplete : EsdUntruncated bytes
    · obtain ⟨tree, htree⟩ := haccepts.2 hcomplete
      rw [herror] at htree
      cases htree
    · rw [hrejects hcomplete] at herror
      cases herror
  · intro hcount heap hcalm
    obtain ⟨hok, htruncated⟩ := (esdBytecodeDecode_spec bytes hcalm).1 hcount
    refine ⟨⟨?_, ?_⟩, htruncated, ?_⟩
    · rintro ⟨tree, htree⟩
      by_contra hno
      rw [htruncated hno] at htree
      cases htree
    · intro hcomplete
      obtain ⟨tree, heap', hrun, -⟩ := hok hcomplete
      exact ⟨tree, by rw [hrun]⟩
    · intro tree htree heap' hcalm'
      have hcomplete : EsdUntruncated bytes := by
        by_contra hno
        rw [htruncated hno] at htree
        cases htree
      obtain ⟨tree', heap'', hrun, hleaves, hnodes, himages⟩ := hok hcomplete
      rw [hrun] at htree
      cases htree
      exact esdBytecodeEncode_leaves hleaves hnodes himages hsize hcalm'

/-- Two pushes, an unknown opcode and what it swallows. -/
theorem pushes_lossless : EsdLossless [0x01, 0x05, 0x00, 0x00, 0x00, 0x7C, 1, 2, 3, 4, 0x99, 0xAA, 0xBB] := by
  have hcount : esdInstructions [0x01, 0x05, 0x00, 0x00, 0x00, 0x7C, 1, 2, 3, 4, 0x99, 0xAA, 0xBB] = 3 := by
    simp [esdInstructions, EsdOpcode.ofUInt8, EsdOpcode.known, EsdOpcode.toUInt8, EsdOpcode.operandWidth]
  exact (esdBytecode_lossless_iff _ (by decide)).2 (by rw [hcount]; decide)

theorem esdInstructions_replicate (n : Nat) : esdInstructions (List.replicate n 0x00) = n := by
  induction n with
  | zero => rw [List.replicate_zero, esdInstructions]
  | succ n ih =>
      have hend : EsdOpcode.ofUInt8 0x00 = some .end := by decide
      have hwidth : EsdOpcode.end.operandWidth = 0 := rfl
      rw [List.replicate_succ, esdInstructions_known hend (Nat.zero_le _), hwidth, List.drop_zero, ih, Nat.add_comm]

/-- `2 ^ 31` times the opcode `SF_ESD_OP_END`: the last child has no number. -/
theorem ends_not_lossless : ¬ EsdLossless (List.replicate (2 ^ 31) 0x00) := by
  intro h
  have herror := (esdBytecodeDecode_spec (List.replicate (2 ^ 31) 0x00) Heap.calm_nil).2 (by
    rw [esdInstructions_replicate]
    decide)
  have hcomplete : ∀ n, EsdUntruncated (List.replicate n 0x00) := by
    intro n
    induction n with
    | zero => exact .done
    | succ n ih =>
        have hend : EsdOpcode.ofUInt8 0x00 = some .end := by decide
        exact (untruncated_known_iff hend (Nat.zero_le _)).2 ih
  obtain ⟨tree, htree⟩ := (h [] Heap.calm_nil).1.2 (hcomplete _)
  rw [herror] at htree
  cases htree

end SoulsFormats
