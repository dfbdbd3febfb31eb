import SoulsFormats.Navmesh.Mcg

set_option autoImplicit false

/-! # Reading back a navigation graph

The record of a node has one count for its two lists, that of the connected nodes. A graph comes back as it
was exactly if both lists of every node are equally long. -/

namespace SoulsFormats

open Bytes Fallible

/-! ## What is stored -/

structure McgEdgeAt (be : Bool) (B : List UInt8) (e : McgEdge) (offsets : Int32 × Int32) : Prop where
  a : I32sAt be B e.unkIndicesA offsets.1
  b : I32sAt be B e.unkIndicesB offsets.2

/-- The offset of an empty list of a node is of no meaning. -/
structure McgNodeAt (be : Bool) (B : List UInt8) (n : McgNode) (offsets : Int32 × Int32) : Prop where
  nodes : n.connectedNodeIndices ≠ [] → I32sAt be B n.connectedNodeIndices offsets.1
  edges : n.connectedEdgeIndices ≠ [] → I32sAt be B n.connectedEdgeIndices offsets.2
  nodesFit : 4 * n.connectedNodeIndices.length ≤ B.length

/-- The record of an edge. -/
def mcgEdgeBytes (be : Bool) (e : McgEdge) (offsets : Int32 × Int32) : List UInt8 :=
  wordBytes be 4 e.nodeIndexA.toUInt32.toNat ++ (wordBytes be 4 (Int32.ofNat e.unkIndicesA.length).toUInt32.toNat ++
    (wordBytes be 4 offsets.1.toUInt32.toNat ++ (wordBytes be 4 e.nodeIndexB.toUInt32.toNat ++
      (wordBytes be 4 (Int32.ofNat e.unkIndicesB.length).toUInt32.toNat ++
        (wordBytes be 4 offsets.2.toUInt32.toNat ++ (wordBytes be 4 e.mcpRoomIndex.toUInt32.toNat ++
          (wordBytes be 4 e.mapId.toNat ++ wordBytes be 4 e.unk20.toNat)))))))

/-- The record of a node. -/
def mcgNodeBytes (be : Bool) (n : McgNode) (offsets : Int32 × Int32) : List UInt8 :=
  wordBytes be 4 (Int32.ofNat n.connectedNodeIndices.length).toUInt32.toNat ++ (vec3Bytes be n.position ++
    (wordBytes be 4 offsets.1.toUInt32.toNat ++ (wordBytes be 4 offsets.2.toUInt32.toNat ++
      (wordBytes be 4 n.unk18.toUInt32.toNat ++ wordBytes be 4 n.unk1c.toUInt32.toNat))))

@[simp] theorem length_mcgEdgeBytes (be : Bool) (e : McgEdge) (offsets : Int32 × Int32) :
    (mcgEdgeBytes be e offsets).length = 36 := by
  simp [mcgEdgeBytes, length_wordBytes]

@[simp] theorem length_mcgNodeBytes (be : Bool) (n : McgNode) (offsets : Int32 × Int32) :
    (mcgNodeBytes be n offsets).length = 32 := by
  simp [mcgNodeBytes, length_wordBytes]

/-- What the file of a graph has: the header, the lists and the tables. -/
structure McgImage (m : Mcg) (edgeOffsets nodeOffsets : List (Int32 × Int32)) (edgesPos nodesPos : Nat)
    (B : List UInt8) : Prop where
  magic : Holds B 0 (wordBytes m.bigEndian 4 1)
  unk04 : Holds B 4 (wordBytes m.bigEndian 4 m.unk04.toUInt32.toNat)
  nodeCount : Holds B 8 (wordBytes m.bigEndian 4 (Int32.ofNat m.nodes.length).toUInt32.toNat)
  nodesOffset : Holds B 12 (wordBytes m.bigEndian 4 (Int32.ofNat nodesPos).toUInt32.toNat)
  edgeCount : Holds B 16 (wordBytes m.bigEndian 4 (Int32.ofNat m.edges.length).toUInt32.toNat)
  edgesOffset : Holds B 20 (wordBytes m.bigEndian 4 (Int32.ofNat edgesPos).toUInt32.toNat)
  unk18 : Holds B 24 (wordBytes m.bigEndian 4 m.unk18.toUInt32.toNat)
  unk1c : Holds B 28 (wordBytes m.bigEndian 4 m.unk1c.toUInt32.toNat)
  edgesPos_le : edgesPos ≤ INT32_MAX
  nodesPos_le : nodesPos ≤ INT32_MAX
  edgesAt : List.Forall₂ (McgEdgeAt m.bigEndian B) m.edges edgeOffsets
  nodesAt : List.Forall₂ (McgNodeAt m.bigEndian B) m.nodes nodeOffsets
  edges : Holds B edgesPos ((m.edges.zip edgeOffsets).flatMap fun e => mcgEdgeBytes m.bigEndian e.1 e.2)
  nodes : Holds B nodesPos ((m.nodes.zip nodeOffsets).flatMap fun n => mcgNodeBytes m.bigEndian n.1 n.2)

/-! ## Writing -/

section Writing

open BinaryWriter

inductive McgSlot where
  | nodesOffset | edgesOffset
deriving DecidableEq

def mcgLabels : Labels McgSlot where
  base
    | .nodesOffset => "NodesOffset"
    | .edgesOffset => "EdgesOffset"
  kind _ := .i32
  noDigits := by
    intro a
    cases a <;> decide
  inj := by
    intro a b h
    cases a <;> cases b <;> first | rfl | exact absurd h (by decide)

def mcgAddr : McgSlot → Option Nat → Nat
  | .nodesOffset, _ => 12
  | .edgesOffset, _ => 20

abbrev mcgSlots : FileSlots (McgSlot × Option Nat) := mcgLabels.slots mcgAddr

variable {be long : Bool}

theorem puts_mcgWriteEdgeIndices (e : McgEdge) (pos : Nat) :
    Puts mcgSlots (mcgWriteEdgeIndices e) ⟨pos, be, long⟩ (fun _ st => st.Flags be long)
      fun offsets _ B => McgEdgeAt be B e offsets := by
  refine (puts_noteI32s e.unkIndicesA pos).seq fun a st hst => ?_
  obtain ⟨p, be', long'⟩ := st
  obtain ⟨rfl, rfl⟩ := hst
  refine (puts_noteI32s e.unkIndicesB p).seq fun b st hst => ?_
  exact Puts.done hst fun B hb ha => ⟨ha, hb⟩

theorem puts_mcgWriteNodeIndices (n : McgNode) (pos : Nat) :
    Puts mcgSlots (mcgWriteNodeIndices n) ⟨pos, be, long⟩ (fun _ st => st.Flags be long)
      fun offsets _ B => McgNodeAt be B n offsets := by
  refine (puts_noteI32s n.connectedNodeIndices pos).seq fun a st hst => ?_
  obtain ⟨p, be', long'⟩ := st
  obtain ⟨rfl, rfl⟩ := hst
  refine (puts_noteI32s n.connectedEdgeIndices p).seq fun b st hst => ?_
  refine Puts.done hst fun B hb ha => ⟨fun hne => ?_, fun hne => ?_, ?_⟩
  · have hlen : n.connectedNodeIndices.length ≠ 0 := by simpa using hne
    simpa only [if_neg hlen] using ha
  · have hlen : n.connectedEdgeIndices.length ≠ 0 := by simpa using hne
    simpa only [if_neg hlen] using hb
  · obtain ⟨q, -, -, hq⟩ := ha
    have hle := hq.le
    rw [length_i32sBytes] at hle
    omega

theorem sends_mcgWriteEdge (e : McgEdge) (offsets : Int32 × Int32) :
    Sends mcgSlots be long (mcgWriteEdge e offsets) (mcgEdgeBytes be e offsets) True :=
  (sends_i32 _).then fun _ => (sends_i32 _).then fun _ => (sends_i32 _).then fun _ => (sends_i32 _).then fun _ =>
    (sends_i32 _).then fun _ => (sends_i32 _).then fun _ => (sends_i32 _).then fun _ => (sends_u32 _).then fun _ =>
      sends_f32 _

theorem sends_mcgWriteNode (n : McgNode) (offsets : Int32 × Int32) :
    Sends mcgSlots be long (mcgWriteNode n offsets) (mcgNodeBytes be n offsets) True :=
  (sends_i32 _).then fun _ => (sends_vec3 _).then fun _ => (sends_i32 _).then fun _ => (sends_i32 _).then fun _ =>
    (sends_i32 _).then fun _ => sends_i32 _

/-- The arrays of offsets are not part of the file. -/
theorem puts_mcgAllocOffsets {β : Type} {Q : β → Stand → Prop} {G : β → Stand → List UInt8 → Prop} {st : Stand}
    (count : Nat) {f : Unit → WriteM β} (hf : Puts mcgSlots (f ()) st Q G) :
    Puts mcgSlots (mcgAllocOffsets count >>= f) st Q G := by
  unfold mcgAllocOffsets given
  split
  · exact Puts.onHeap Heap.allocBoth_keeps fun _ _ => hf
  · exact hf

/-- **A graph that is written has its image in the file.** -/
theorem puts_mcgWrite (m : Mcg) : Puts mcgSlots (mcgWrite m) ⟨0, m.bigEndian, false⟩ (fun _ _ => True)
    fun _ _ B => ∃ edgeOffsets nodeOffsets edgesPos nodesPos, McgImage m edgeOffsets nodeOffsets edgesPos nodesPos B := by
  refine puts_mcgAllocOffsets _ (puts_mcgAllocOffsets _ ?_)
  refine Puts.i32 (Puts.i32 (Puts.i32 (Puts.reserveI32 (.nodesOffset, none) rfl rfl ?_)))
  refine Puts.i32 (Puts.reserveI32 (.edgesOffset, none) rfl rfl (Puts.i32 (Puts.i32 ?_)))
  refine (puts_noteEach m.edges (fun e _ pos => puts_mcgWriteEdgeIndices e pos) _).seq fun edgeOffsets st hst => ?_
  obtain ⟨p, be', long'⟩ := st
  obtain ⟨⟨rfl, rfl⟩, -⟩ := hst
  refine (puts_noteEach m.nodes (fun n _ pos => puts_mcgWriteNodeIndices n pos) _).seq fun nodeOffsets st hst => ?_
  obtain ⟨edgesPos, be', long'⟩ := st
  obtain ⟨⟨rfl, rfl⟩, -⟩ := hst
  refine Puts.position (Puts.check fun hedges => Puts.fillI32 (.edgesOffset, none) rfl ?_)
  refine Puts.sent ((sends_each _ fun e _ => sends_mcgWriteEdge e.1 e.2).imp fun _ => trivial) fun _ => ?_
  refine Puts.position (Puts.check fun hnodes => Puts.fillI32 (.nodesOffset, none) rfl ?_)
  refine Puts.last (Puts.sent ((sends_each _ fun n _ => sends_mcgWriteNode n.1 n.2).imp fun _ => trivial) fun _ => ?_)
  refine Puts.done trivial fun B nodes nodesOffset edges edgesOffset nodesAt edgesAt unk1c unk18 edgeCount nodeCount
    unk04 magic => ?_
  exact ⟨edgeOffsets, nodeOffsets, _, _, magic, unk04, nodeCount, nodesOffset, edgeCount, edgesOffset, unk18, unk1c, hedges,
    hnodes, edgesAt, nodesAt, edges, nodes⟩

end Writing

/-! ## Reading -/

section Reading

open BinaryReader

variable {be : Bool} {B : List UInt8}

theorem reads_mcgReadEdge {e : McgEdge} {offsets : Int32 × Int32} (hat : McgEdgeAt be B e offsets)
    (hB : B.length < 2 ^ 31) {pos : Nat} (hrec : Holds B pos (mcgEdgeBytes be e offsets)) (long : Bool)
    (steps : List Nat) (flexible : Bool) :
    Reads mcgReadEdge ⟨B, pos, be, long, steps, flexible⟩ e ⟨B, pos + 36, be, long, steps, flexible⟩ := by
  have hle := hrec.le
  rw [length_mcgEdgeBytes] at hle
  unfold mcgEdgeBytes at hrec
  simp only [holds_append, length_wordBytes] at hrec
  obtain ⟨hA, hcountA, hoffA, hNB, hcountB, hoffB, hroom, hmap, hunk⟩ := hrec
  refine Reads.i32 hA (Reads.i32 hcountA (Reads.i32 hoffA (Reads.i32 hNB (Reads.i32 hcountB (Reads.i32 hoffB ?_)))))
  refine Reads.i32 hroom (Reads.u32 hmap (Reads.f32 hunk (Reads.check ?_ ?_)))
  · rw [int32_toInt_ofNat (hat.a.length_le hB), int32_toInt_ofNat (hat.b.length_le hB)]
    omega
  · refine Reads.i32sAt (fun _ => hat.a) hB (hat.a.length_le hB) (by omega) ?_
    refine Reads.i32sAt (fun _ => hat.b) hB (hat.b.length_le hB) (by omega) ?_
    exact Reads.pure _ _

/-- A node whose lists are equally long is read as it was. -/
theorem reads_mcgReadNode {n : McgNode} {offsets : Int32 × Int32} (hat : McgNodeAt be B n offsets)
    (hsame : n.connectedNodeIndices.length = n.connectedEdgeIndices.length) (hB : B.length < 2 ^ 31) {pos : Nat}
    (hrec : Holds B pos (mcgNodeBytes be n offsets)) (long : Bool) (steps : List Nat) (flexible : Bool) :
    Reads mcgReadNode ⟨B, pos, be, long, steps, flexible⟩ n ⟨B, pos + 32, be, long, steps, flexible⟩ := by
  have hle := hrec.le
  have hmax : INT32_MAX = 2 ^ 31 - 1 := rfl
  have hcount : (Int32.ofNat n.connectedNodeIndices.length).toInt = n.connectedNodeIndices.length := by
    have hfit := hat.nodesFit
    exact int32_toInt_ofNat (by omega)
  rw [length_mcgNodeBytes] at hle
  unfold mcgNodeBytes at hrec
  simp only [holds_append, length_wordBytes, length_vec3Bytes] at hrec
  obtain ⟨hconn, hposition, hnodes, hedges, h18, h1c⟩ := hrec
  refine Reads.i32 hconn (Reads.vec3 hposition (Reads.i32 hnodes (Reads.i32 hedges (Reads.i32 h18 (Reads.i32 h1c ?_)))))
  refine Reads.check (by omega) ?_
  rw [hcount]
  refine Reads.given (v := (n.connectedNodeIndices, n.connectedEdgeIndices)) (n := 0) (fun hpos => ?_) (fun h0 => ?_)
    (by rw [ite_self]; exact Reads.pure _ _)
  · have hlen : 0 < n.connectedNodeIndices.length := by simpa using hpos
    refine reads_allocBoth _ (reads_getI32sAt (hat.nodes (List.length_pos_iff.1 hlen)) hB (by omega) ?_)
    rw [Int.toNat_natCast, hsame]
    exact reads_getI32sAt (hat.edges (List.length_pos_iff.1 (hsame ▸ hlen))) hB (by omega) (Reads.pure _ _)
  · have hlen : n.connectedNodeIndices.length = 0 := by simpa using h0
    have hedge : n.connectedEdgeIndices = [] := List.length_eq_zero_iff.1 (hsame.symm.trans hlen)
    rw [List.length_eq_zero_iff.1 hlen, hedge]

/-- The reader gives both lists of a node one length. -/
theorem returns_mcgReadNode : Returns mcgReadNode fun n =>
    n.connectedNodeIndices.length = n.connectedEdgeIndices.length := by
  refine Returns.after fun count => Returns.after fun _ => Returns.after fun _ => Returns.after fun _ =>
    Returns.after fun _ => Returns.after fun _ => Returns.check fun _ => ?_
  refine (Returns.given (Q := fun l : List Int32 × List Int32 => l.1.length = l.2.length) (fun _ => ?_) fun _ => rfl).bind
    fun l hl => Returns.pure hl
  refine Returns.after fun _ => (returns_defineGet (returns_readI32s _) _).bind fun ns hns =>
    (returns_defineGet (returns_readI32s _) _).bind fun es hes => Returns.pure ?_
  exact hns.trans hes.symm

theorem returns_mcgRead : Returns mcgRead fun m =>
    ∀ n ∈ m.nodes, n.connectedNodeIndices.length = n.connectedEdgeIndices.length := by
  refine Returns.after fun _ => Returns.after fun _ => Returns.after fun _ => Returns.after fun _ => Returns.after fun _ =>
    Returns.after fun _ => Returns.after fun _ => Returns.after fun _ => Returns.after fun _ => Returns.after fun _ =>
      Returns.check fun _ => Returns.after fun _ => Returns.after fun _ => ?_
  refine (returns_steppedIn (returns_readEach returns_mcgReadNode _) _).bind fun nodes hnodes => ?_
  exact Returns.after fun edges => Returns.pure hnodes.2

variable {m : Mcg} {edgeOffsets nodeOffsets : List (Int32 × Int32)} {edgesPos nodesPos : Nat}

theorem reads_mcgReserve {β : Type} (n : Nat) {f : Unit → ReadM β} {b : β} {c c' : Cursor} (hf : Reads (f ()) c b c') :
    Reads (mcgReserve n >>= f) c b c' := by
  unfold mcgReserve given
  split
  · rw [bind_assoc]
    exact reads_alloc c fun _ => hf
  · exact hf

theorem reads_mcgRead (himage : McgImage m edgeOffsets nodeOffsets edgesPos nodesPos B) (hB : B.length < 2 ^ 31)
    (hcounts : m.nodes.length ≤ INT32_MAX ∧ m.edges.length ≤ INT32_MAX)
    (hsame : ∀ n ∈ m.nodes, n.connectedNodeIndices.length = n.connectedEdgeIndices.length) (flexible : Bool) :
    Reads mcgRead ⟨B, 0, true, false, [], flexible⟩ m ⟨B, 32, m.bigEndian, false, [], flexible⟩ := by
  have hnodeCount := int32_toInt_ofNat hcounts.1
  have hedgeCount := int32_toInt_ofNat hcounts.2
  have hnodesPos := int32_toInt_ofNat himage.nodesPos_le
  have hedgesPos := int32_toInt_ofNat himage.edgesPos_le
  have hstart := himage.unk1c.le
  rw [length_wordBytes] at hstart
  -- the first word is read in big-endian order, whatever the order of the file
  have hword : ∀ be : Bool, wordBytes true 4 (if be then (1 : Int32) else 0x1000000).toUInt32.toNat = wordBytes be 4 1 := by
    decide
  have hmagic := himage.magic
  rw [← hword] at hmagic
  have horder : ∀ be : Bool, decide ((if be then (1 : Int32) else 0x1000000) = 1) = be := by decide
  have hoption : ∀ be : Bool, (if be then (1 : Int32) else 0x1000000) ∈ [(1 : Int32), 0x1000000] := by decide
  refine reads_alloc _ fun _ => Reads.assertI32 hmagic (hoption _) (Reads.setBig ?_)
  rw [horder]
  refine Reads.i32 himage.unk04 (Reads.i32 himage.nodeCount (Reads.i32 himage.nodesOffset (Reads.i32 himage.edgeCount ?_)))
  refine Reads.i32 himage.edgesOffset (Reads.i32 himage.unk18 (Reads.i32 himage.unk1c (Reads.check (by omega) ?_)))
  refine reads_mcgReserve _ (reads_mcgReserve _ ?_)
  simp only [hnodeCount, hedgeCount, hnodesPos, hedgesPos, Int.toNat_natCast]
  have hnodes : Reads (readEach mcgReadNode m.nodes.length) ⟨B, nodesPos, m.bigEndian, false, [32], flexible⟩ m.nodes
      ⟨B, nodesPos + m.nodes.length * 32, m.bigEndian, false, [32], flexible⟩ := by
    refine reads_table 32 m.nodes fun i n hn => ?_
    obtain ⟨offsets, hat, hrec⟩ := record_at himage.nodesAt (length_mcgNodeBytes m.bigEndian) himage.nodes i n hn
    exact reads_mcgReadNode hat (hsame n (List.mem_of_getElem? hn)) hB hrec false [32] flexible
  have hedges : Reads (readEach mcgReadEdge m.edges.length) ⟨B, edgesPos, m.bigEndian, false, [32], flexible⟩ m.edges
      ⟨B, edgesPos + m.edges.length * 36, m.bigEndian, false, [32], flexible⟩ := by
    refine reads_table 36 m.edges fun i e he => ?_
    obtain ⟨offsets, hat, hrec⟩ := record_at himage.edgesAt (length_mcgEdgeBytes m.bigEndian) himage.edges i e he
    exact reads_mcgReadEdge hat hB hrec false [32] flexible
  refine Reads.steppedIn rfl ((Nat.le_add_right _ _).trans himage.nodes.le) hstart hnodes ?_
  refine Reads.steppedIn rfl ((Nat.le_add_right _ _).trans himage.edges.le) hstart hedges ?_
  exact Reads.pure _ _

end Reading

/-! ## What comes back -/

/-- **A graph that was written comes back as it was, exactly if** the two lists of every node are equally
    long. -/
theorem mcg_round_trips_iff (m : Mcg) (heap heap' : Heap) (flexible : Bool) (hcalm : heap'.Calm) (out : List UInt8)
    (hwrite : (mcgWriteToMemory m heap).1 = .ok out) (hsize : out.length < 2 ^ 31) :
    (mcgReadFromMemory flexible out heap').1 = .ok m ↔
      ∀ n ∈ m.nodes, n.connectedNodeIndices.length = n.connectedEdgeIndices.length := by
  constructor
  · intro hread
    obtain ⟨_, _, hrun, -⟩ := BinaryReader.onMemory_eq_ok hread
    exact returns_mcgRead _ _ _ hrun
  · intro hsame
    unfold mcgWriteToMemory at hwrite
    split at hwrite
    · cases hwrite
    · next hcounts =>
        rw [not_or, not_lt, not_lt] at hcounts
        obtain ⟨st, -, ⟨edgeOffsets, nodeOffsets, edgesPos, nodesPos, himage⟩, -, -⟩ :=
          (puts_mcgWrite m).toMemory nofun hwrite
        obtain ⟨_, hrun, -⟩ := BinaryReader.onMemory_ok (reads_mcgRead himage hsize hcounts hsame flexible) hcalm
        exact congrArg Prod.fst hrun

/-- A node that is connected to a node by no edge. -/
def mcgOneConnection : Mcg :=
  let m := mcgAppendNode mcgCreateEmpty
  { m with nodes := m.nodes.map fun n => mcgNodeAppendConnectedNodeIndex n 0 }

theorem mcg_one_connection_not_round_trips :
    ∃ out, (mcgWriteToMemory mcgOneConnection []).1 = .ok out ∧ out.length < 2 ^ 31 ∧
      (mcgReadFromMemory false out []).1 ≠ .ok mcgOneConnection := by
  refine ⟨(mcgWriteToMemory mcgOneConnection []).1.toOption.getD [], ?_, ?_, ?_⟩ <;> decide +kernel

/-- A node that is connected to itself by an edge, in a big-endian file. -/
def mcgLoop : Mcg :=
  let m := mcgAppendEdge (mcgAppendNode mcgCreateEmpty)
  { m with
    bigEndian := true
    nodes := m.nodes.map fun n => mcgNodeAppendConnectedEdgeIndex (mcgNodeAppendConnectedNodeIndex n 0) 0
    edges := m.edges.map fun e => mcgEdgeAppendUnkIndicesB (mcgEdgeAppendUnkIndicesA e 5) 7 }

theorem mcg_loop_round_trips :
    (mcgReadFromMemory false ((mcgWriteToMemory mcgLoop []).1.toOption.getD []) []).1 = .ok mcgLoop :=
  (mcg_round_trips_iff mcgLoop [] [] false Heap.calm_nil _ (by decide +kernel) (by decide +kernel)).2 (by decide)

end SoulsFormats
