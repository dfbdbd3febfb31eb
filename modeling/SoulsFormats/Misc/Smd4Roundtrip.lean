import SoulsFormats.Core.Answers
import SoulsFormats.Core.Fields
import SoulsFormats.Misc.Smd4Image

set_option autoImplicit false

/-! # What a shadow mesh comes back as

What the reader gives of a written file is a function of the shadow mesh: every name as it comes back from its field, and
every mesh whose indices can be counted in 16 bits, with the fields of a vertex that its format stores. From it follows
when a shadow mesh comes back. -/

namespace SoulsFormats

open Bytes Fallible

/-! ## What comes back -/

section

variable (os : Win32)

/-- The entry with the name that is read from its field. -/
def Smd4Unk10.back (u : Smd4Unk10) : Option Smd4Unk10 :=
  (Smd4Name.ofField os (u.name.fieldBytes os)).map fun name => { u with name := name }

def Smd4Node.back (n : Smd4Node) : Option Smd4Node :=
  (Smd4Name.ofField os (n.name.fieldBytes os)).map fun name => { n with name := name }

end

/-- The vertex with the fields that its format stores. -/
def Smd4Vertex.stored (format : UInt8) (v : Smd4Vertex) : Smd4Vertex :=
  let one := smd4OneBone (v.boneIndices.1.getD 0 0)
  if format = 0 then ⟨v.position, 0, 0, one.1, one.2⟩
  else if format = 1 then ⟨v.position, v.uvX, v.uvY, one.1, one.2⟩
  else ⟨v.position, 0, 0, v.boneIndices, v.boneWeights⟩

def Smd4Mesh.stored (m : Smd4Mesh) : Smd4Mesh := { m with vertices := m.vertices.map (.stored m.vertexFormat) }

/-- The mesh, if its indices can be counted. -/
def Smd4Mesh.back (m : Smd4Mesh) : Option Smd4Mesh := if m.indices.length ≤ 65535 then some m.stored else none

def smd4NextCap (count cap : Nat) : Nat := if count < cap then cap else if cap = 0 then 4 else cap * 2

def Smd4.pushUnk10 (s : Smd4) (u : Smd4Unk10) : Smd4 :=
  { s with unk10Cap := smd4NextCap s.unk10s.length s.unk10Cap, unk10s := s.unk10s ++ [u] }

def Smd4.pushNode (s : Smd4) (n : Smd4Node) : Smd4 :=
  { s with nodeCap := smd4NextCap s.nodes.length s.nodeCap, nodes := s.nodes ++ [n] }

def Smd4.pushMesh (s : Smd4) (m : Smd4Mesh) : Smd4 :=
  { s with meshCap := smd4NextCap s.meshes.length s.meshCap, meshes := s.meshes ++ [m] }

theorem yields_smd4Grow (count cap : Nat) : Yields (smd4Grow count cap) (smd4NextCap count cap) := by
  unfold smd4Grow smd4NextCap
  by_cases h : count < cap
  · rw [if_pos h, if_pos h]
    exact Yields.pure cap
  · rw [if_neg h, if_neg h]
    exact (Yields.pure _).alloc

/-! ## Reading -/

section Reading

open BinaryReader

variable {os : Win32} {B : List UInt8} {pos : Nat} {flexible : Bool}

theorem answers_smd4ReadUnk10 {u : Smd4Unk10} (h : Holds B pos (smd4Unk10Bytes os u)) :
    Answers (smd4ReadUnk10 os) ⟨B, pos, true, false, [], flexible⟩ (u.back os)
      ⟨B, pos + 36, true, false, [], flexible⟩ := by
  simp only [smd4Unk10Bytes, holds_append, List.length_singleton] at h
  obtain ⟨h0, h1, h2, h3, hname⟩ := h
  have hfield : Answers (readFixStr os 32) ⟨B, pos + 4, true, false, [], flexible⟩
      (granted (shiftJisToUtf8 os (cText (u.name.fieldBytes os)))) ⟨B, pos + 36, true, false, [], flexible⟩ :=
    answers_readFixStr (by decide) u.name.length_fieldBytes _ hname
  refine Reads.answers (parses_u8 _ _ h0) (Reads.answers (parses_u8 _ _ h1) (Reads.answers (parses_u8 _ _ h2)
    (Reads.answers (parses_u8 _ _ h3) ?_)))
  rw [Smd4Unk10.back, Smd4Name.ofField, Option.map_map]
  exact hfield.map _

theorem readsBack_smd4NodeRest (n : Smd4Node) (name : Smd4Name) :
    ReadsBack true (do
      let translation ← readVec3
      let rotation ← readVec3
      let scale ← readVec3
      let bbMin ← readVec3
      let bbMax ← readVec3
      let parentIndex ← readI16
      let firstChildIndex ← readI16
      let nextSiblingIndex ← readI16
      let prevSiblingIndex ← readI16
      let unk64 ← readI32
      let unk68 ← readI32
      let unk6c ← readI32
      let unk70 ← readI32s 8
      pure (⟨name, translation, rotation, scale, bbMin, bbMax, parentIndex, firstChildIndex, nextSiblingIndex,
        prevSiblingIndex, unk64, unk68, unk6c, .ofList 8 0 unk70⟩ : Smd4Node))
      (smd4NodeRest n) { n with name := name } := by
  have hwords := @readsBack_i32s true n.unk70.1 (by rw [n.unk70.2]; decide)
  rw [n.unk70.2] at hwords
  refine (readsBack_vec3 _).bind ((readsBack_vec3 _).bind ((readsBack_vec3 _).bind ((readsBack_vec3 _).bind
    ((readsBack_vec3 _).bind ((readsBack_i16 _).bind ((readsBack_i16 _).bind ((readsBack_i16 _).bind
      ((readsBack_i16 _).bind ((readsBack_i32 _).bind ((readsBack_i32 _).bind ((readsBack_i32 _).bind
        (hwords.last _ ?_))))))))))))
  rw [CArray.ofList_val]

theorem answers_smd4ReadNode {n : Smd4Node} (h : Holds B pos (smd4NodeBytes os n)) :
    Answers (smd4ReadNode os) ⟨B, pos, true, false, [], flexible⟩ (n.back os)
      ⟨B, pos + 144, true, false, [], flexible⟩ := by
  have hlen := @length_smd4NodeBytes os n
  unfold smd4NodeBytes at h hlen
  rw [holds_append, Smd4Name.length_fieldBytes] at h
  rw [List.length_append, Smd4Name.length_fieldBytes] at hlen
  have hfield : Answers (readFixStr os 32) ⟨B, pos, true, false, [], flexible⟩
      (granted (shiftJisToUtf8 os (cText (n.name.fieldBytes os)))) ⟨B, pos + 32, true, false, [], flexible⟩ :=
    answers_readFixStr (by decide) n.name.length_fieldBytes _ h.1
  rw [Smd4Node.back, Smd4Name.ofField, Option.map_map, Option.map_eq_bind]
  refine hfield.bind fun t _ => ?_
  have hrest := readsBack_smd4NodeRest n (.ofChars t) ⟨B, pos + 32, true, false, [], flexible⟩ rfl h.2
  have hend : pos + 144 = pos + 32 + (smd4NodeRest n).length := by omega
  rw [hend]
  exact hrest

theorem readsBack_smd4ReadVertex {format : UInt8} (hformat : smd4VertexSize format ≠ 0) (v : Smd4Vertex) :
    ReadsBack true (smd4ReadVertex format) (smd4VertexBytes format v) (v.stored format) := by
  unfold smd4ReadVertex smd4VertexBytes Smd4Vertex.stored
  by_cases h0 : format = 0
  · rw [if_pos h0, if_pos h0, if_pos h0]
    exact (readsBack_vec3 _).bind ((readsBack_i16 _).bind
      (((readsBack_i16 0).assert (List.mem_singleton.2 rfl)).last _ rfl))
  · rw [if_neg h0, if_neg h0, if_neg h0]
    by_cases h1 : format = 1
    · rw [if_pos h1, if_pos h1, if_pos h1]
      exact (readsBack_vec3 _).bind ((readsBack_f32 _).bind ((readsBack_f32 _).bind ((readsBack_i16 _).bind
        (((readsBack_i16 0).assert (List.mem_singleton.2 rfl)).last _ rfl))))
    · have h2 : format = 2 := by
        by_contra h2
        simp [smd4VertexSize, h0, h1, h2] at hformat
      have hindices := @readsBack_i16s true v.boneIndices.1 (by rw [v.boneIndices.2]; decide)
      have hweights := @readsBack_u32s true v.boneWeights.1 (by rw [v.boneWeights.2]; decide)
      rw [v.boneIndices.2] at hindices
      rw [v.boneWeights.2] at hweights
      rw [if_neg h1, if_neg h1, if_neg h1, if_pos h2]
      refine (readsBack_vec3 _).bind (hindices.bind (hweights.last _ ?_))
      rw [CArray.ofList_val, CArray.ofList_val]

/-- The indices and the vertices, where they stand. -/
theorem reads_smd4ReadData {m : Smd4Mesh} (hformat : smd4VertexSize m.vertexFormat ≠ 0) {dataStart : Nat}
    {offsets : Nat × Nat} {base index : Nat} (h : Smd4DataAt base dataStart index m offsets B) (hB : B.length < 2 ^ 31)
    (hpos : pos ≤ B.length) {p q : Int} (hp : p = dataStart + offsets.1) (hq : q = dataStart + offsets.2) :
    Reads (smd4ReadData m.vertexFormat m.indices.length m.vertices.length p q) ⟨B, pos, true, false, [], flexible⟩
      (m.indices, m.vertices.map (.stored m.vertexFormat)) ⟨B, pos, true, false, [], flexible⟩ := by
  unfold smd4ReadData
  have hindices : Reads (given (decide (0 < m.indices.length)) [] do
      let _ ← BinaryReader.onHeap Heap.alloc
      getU16s p m.indices.length) ⟨B, pos, true, false, [], flexible⟩ m.indices ⟨B, pos, true, false, [], flexible⟩ := by
    unfold given
    by_cases hsome : 0 < m.indices.length
    · rw [if_pos (by simpa using hsome)]
      have hheld := h.indices hsome
      have hlen := hheld.le
      rw [length_flatMap_const _ fun _ _ => length_wordBytes ..] at hlen
      have hwords := @readsBack_u16s true m.indices (by rw [show INT32_MAX = 2 ^ 31 - 1 from rfl]; omega)
      refine reads_alloc _ fun _ => Reads.last ?_
      exact Reads.got (by rw [hp, Nat.cast_add]) hheld hpos (hwords _ rfl) (Reads.pure _ _)
    · rw [if_neg (by simpa using hsome), List.length_eq_zero_iff.1 (by omega : m.indices.length = 0)]
      exact Reads.pure _ _
  have hvertices : Reads (given (decide (0 < m.vertices.length)) [] do
      let _ ← BinaryReader.onHeap Heap.alloc
      defineGet q (readEach (smd4ReadVertex m.vertexFormat) m.vertices.length)) ⟨B, pos, true, false, [], flexible⟩
      (m.vertices.map (.stored m.vertexFormat)) ⟨B, pos, true, false, [], flexible⟩ := by
    unfold given
    by_cases hsome : 0 < m.vertices.length
    · rw [if_pos (by simpa using hsome)]
      have heach : ReadsBack true (readEach (smd4ReadVertex m.vertexFormat) m.vertices.length)
          (m.vertices.flatMap (smd4VertexBytes m.vertexFormat)) (m.vertices.map (.stored m.vertexFormat)) :=
        ReadsBack.each _ fun v _ => readsBack_smd4ReadVertex hformat v
      refine reads_alloc _ fun _ => Reads.last ?_
      exact Reads.got (by rw [hq, Nat.cast_add]) h.vertices hpos (heach _ rfl) (Reads.pure _ _)
    · rw [if_neg (by simpa using hsome), List.length_eq_zero_iff.1 (by omega : m.vertices.length = 0)]
      exact Reads.pure _ _
  exact hindices.bind (hvertices.bind (Reads.pure _ _))

theorem answers_smd4ReadMesh {m : Smd4Mesh} (hformat : smd4VertexSize m.vertexFormat ≠ 0) {dataStart base index : Nat}
    {offsets : Nat × Nat} (hhead : Smd4HeaderAt base index m B) (hdata : Smd4DataAt base dataStart index m offsets B)
    (hB : B.length < 2 ^ 31) (hfit : dataStart ≤ INT32_MAX) (s : Smd4) :
    Answers (smd4ReadMesh (Int32.ofNat dataStart) SF_SMD4_VERSION_0x40001 s) ⟨B, base + 80 * index, true, false, [], flexible⟩
      (m.back.map s.pushMesh) ⟨B, base + 80 * (index + 1), true, false, [], flexible⟩ := by
  have hmax : INT32_MAX = 2 ^ 31 - 1 := rfl
  -- what the image bounds
  have hindices : m.indices.length * 2 < 2 ^ 31 := by
    by_cases hsome : 0 < m.indices.length
    · have hlen := (hdata.indices hsome).le
      rw [length_flatMap_const _ fun _ _ => length_wordBytes ..] at hlen
      omega
    · omega
  have hvertices : m.vertices.length * smd4VertexSize m.vertexFormat < 2 ^ 31 := by
    have hlen := hdata.vertices.le
    rw [length_flatMap_const _ fun v _ => length_smd4VertexBytes hformat v] at hlen
    omega
  have hpos := hdata.bufferOffset.le
  rw [length_wordBytes] at hpos
  have hbones : (m.boneIndices.1.flatMap fun b => wordBytes true 2 b.toUInt16.toNat).length = 56 :=
    (length_flatMap_const _ fun _ _ => length_wordBytes ..).trans (by rw [m.boneIndices.2])
  have hreadBones := @readsBack_i16s true m.boneIndices.1 (by rw [m.boneIndices.2]; decide)
  rw [m.boneIndices.2] at hreadBones
  have hheld := hhead.head
  simp only [smd4MeshHeadBytes, holds_append, hbones, length_wordBytes, List.length_singleton] at hheld
  obtain ⟨h0, h1, h2, h3, hcount, hunk06, hbonesHeld, hlength⟩ := hheld
  unfold smd4ReadMesh
  refine Answers.passed rfl ((readsBack_u8 _).answers h0 rfl ((readsBack_u8 _).answers h1 rfl
    ((readsBack_bool _).answers h2 rfl ((readsBack_bool _).answers h3 rfl ((readsBack_u16 _).answers hcount
      (length_wordBytes ..) ((readsBack_i16 _).answers hunk06 (length_wordBytes ..) (hreadBones.answers hbonesHeld hbones
        ((readsBack_i32 _).answers hlength (length_wordBytes ..) ?_))))))))
  have hcheck : (Int32.ofNat (m.indices.length * 2)).toInt = (UInt16.ofNat m.indices.length).toNat * 2 ↔
      m.indices.length ≤ 65535 := by
    rw [int32_toInt_ofNat (by omega), UInt16.toNat_ofNat']
    omega
  have hback : m.back.map s.pushMesh = if (Int32.ofNat (m.indices.length * 2)).toInt =
      (UInt16.ofNat m.indices.length).toNat * 2 then some (s.pushMesh m.stored) else none := by
    by_cases hfew : m.indices.length ≤ 65535
    · rw [Smd4Mesh.back, if_pos hfew, if_pos (hcheck.2 hfew), Option.map_some]
    · rw [Smd4Mesh.back, if_neg hfew, if_neg (mt hcheck.1 hfew), Option.map_none]
  rw [hback]
  refine Answers.check fun hlengths => ?_
  have hfew := hcheck.1 hlengths
  have hbufferLength := int32_toInt_ofNat (n := m.vertices.length * smd4VertexSize m.vertexFormat) (by omega)
  have hcountWord : (UInt16.ofNat m.indices.length).toNat = m.indices.length := by
    rw [UInt16.toNat_ofNat']
    omega
  refine (readsBack_i32 _).answers hdata.indicesOffset (length_wordBytes ..) ((readsBack_i32 _).answers hhead.bufferLength
    (length_wordBytes ..) ((readsBack_i32 _).answers hdata.bufferOffset (length_wordBytes ..) (Answers.passed hformat
      (Answers.passed ⟨by omega, ?_⟩ ?_))))
  · rw [hbufferLength, Int.toNat_natCast, Nat.mul_mod_left]
  rw [hbufferLength, Int.toNat_natCast, Nat.mul_div_cancel _ (Nat.pos_of_ne_zero hformat), hcountWord]
  refine Reads.answers (reads_smd4ReadData hformat hdata hB hpos
    (by rw [int32_toInt_ofNat hfit, int32_toInt_ofNat hdata.indicesFit])
    (by rw [int32_toInt_ofNat hfit, int32_toInt_ofNat hdata.bufferFit])) ?_
  have hgrow : Yields (smd4GrowMeshes s) { s with meshCap := smd4NextCap s.meshes.length s.meshCap } :=
    (yields_smd4Grow _ _).bind (Yields.pure _)
  refine Reads.answers (hgrow.reads _) ?_
  rw [CArray.ofList_val]
  exact Answers.pure _ _

/-! ### The loops -/

/-- A list that is pushed element by element, as its elements come back. -/
theorem map_foldl_mapM_cons {σ α : Type} (back : α → Option α) (push : σ → α → σ) (a : α) (l : List α) (s : σ) :
    ((a :: l).mapM back).map (·.foldl push s) =
      (back a).bind fun a' => (l.mapM back).map (·.foldl push (push s a')) := by
  rw [List.mapM_cons]
  cases back a <;> cases l.mapM back <;> rfl

theorem answers_smd4ReadUnk10s (us : List Smd4Unk10) (h : Holds B pos (us.flatMap (smd4Unk10Bytes os))) (s : Smd4) :
    Answers (smd4ReadUnk10s os us.length s) ⟨B, pos, true, false, [], flexible⟩
      ((us.mapM (Smd4Unk10.back os)).map (·.foldl Smd4.pushUnk10 s))
      ⟨B, pos + 36 * us.length, true, false, [], flexible⟩ := by
  induction us generalizing pos s with
  | nil => exact Answers.pure _ _
  | cons u us ih =>
      rw [List.flatMap_cons, holds_append, length_smd4Unk10Bytes] at h
      rw [map_foldl_mapM_cons]
      refine (answers_smd4ReadUnk10 h.1).bind fun u' _ => ?_
      have hgrow : Yields (smd4GrowUnk10s s) { s with unk10Cap := smd4NextCap s.unk10s.length s.unk10Cap } :=
        (yields_smd4Grow _ _).bind (Yields.pure _)
      have hrest := ih h.2 (s.pushUnk10 u')
      rw [show pos + 36 + 36 * us.length = pos + 36 * (us.length + 1) by omega] at hrest
      exact Reads.answers (hgrow.reads _) hrest

theorem answers_smd4ReadNodes (ns : List Smd4Node) (h : Holds B pos (ns.flatMap (smd4NodeBytes os))) (s : Smd4) :
    Answers (smd4ReadNodes os ns.length s) ⟨B, pos, true, false, [], flexible⟩
      ((ns.mapM (Smd4Node.back os)).map (·.foldl Smd4.pushNode s))
      ⟨B, pos + 144 * ns.length, true, false, [], flexible⟩ := by
  induction ns generalizing pos s with
  | nil => exact Answers.pure _ _
  | cons n ns ih =>
      rw [List.flatMap_cons, holds_append, length_smd4NodeBytes] at h
      rw [map_foldl_mapM_cons]
      refine (answers_smd4ReadNode h.1).bind fun n' _ => ?_
      have hgrow : Yields (smd4GrowNodes s) { s with nodeCap := smd4NextCap s.nodes.length s.nodeCap } :=
        (yields_smd4Grow _ _).bind (Yields.pure _)
      have hrest := ih h.2 (s.pushNode n')
      rw [show pos + 144 + 144 * ns.length = pos + 144 * (ns.length + 1) by omega] at hrest
      exact Reads.answers (hgrow.reads _) hrest

theorem answers_smd4ReadMeshes {dataStart base : Nat} {offsets : Nat → Nat × Nat} (hB : B.length < 2 ^ 31)
    (hfit : dataStart ≤ INT32_MAX) (ms : List Smd4Mesh) (hformat : ∀ m ∈ ms, smd4VertexSize m.vertexFormat ≠ 0) {k : Nat}
    (hhead : ∀ i m, ms[i]? = some m → Smd4HeaderAt base (k + i) m B)
    (hdata : ∀ i m, ms[i]? = some m → Smd4DataAt base dataStart (k + i) m (offsets (k + i)) B) (s : Smd4) :
    Answers (smd4ReadMeshes (Int32.ofNat dataStart) SF_SMD4_VERSION_0x40001 ms.length s)
      ⟨B, base + 80 * k, true, false, [], flexible⟩ ((ms.mapM Smd4Mesh.back).map (·.foldl Smd4.pushMesh s))
      ⟨B, base + 80 * (k + ms.length), true, false, [], flexible⟩ := by
  induction ms generalizing k s with
  | nil => exact Answers.pure _ _
  | cons m ms ih =>
      have hfirst := @answers_smd4ReadMesh B flexible m (hformat m List.mem_cons_self) _ _ _ _ (hhead 0 m rfl)
        (hdata 0 m rfl) hB hfit s
      have hvalue : ((m :: ms).mapM Smd4Mesh.back).map (·.foldl Smd4.pushMesh s) =
          (m.back.map s.pushMesh).bind fun s => (ms.mapM Smd4Mesh.back).map (·.foldl Smd4.pushMesh s) := by
        rw [map_foldl_mapM_cons]
        cases m.back <;> rfl
      rw [hvalue]
      refine Answers.bind hfirst fun s' _ => ?_
      have hrest := ih (fun m' hm' => hformat m' (List.mem_cons_of_mem _ hm')) (k := k + 1)
        (fun i m' hm' => by rw [Nat.add_right_comm]; exact hhead (i + 1) m' hm')
        (fun i m' hm' => by rw [Nat.add_right_comm]; exact hdata (i + 1) m' hm') s'
      rwa [Nat.add_right_comm] at hrest

/-! ### The header -/

theorem reads_smd4ReadHead {s : Smd4} {dataStart : Nat} {offsets : Nat → Nat × Nat}
    (h : Smd4Image os s dataStart offsets B) (hversion : s.version = SF_SMD4_VERSION_0x40001) (hB : B.length < 2 ^ 31)
    (hmeshes : s.meshes.length ≤ INT32_MAX) :
    Reads smd4ReadHead ⟨B, 0, true, false, [], flexible⟩ ⟨s.version, Int32.ofNat dataStart, Int32.ofNat s.unk10s.length,
      Int32.ofNat s.nodes.length, Int32.ofNat s.meshes.length, s.bbMin, s.bbMax⟩ ⟨B, 96, true, false, [], flexible⟩ := by
  have hunk10s := h.unk10s.le
  have hnodes := h.nodes.le
  rw [length_flatMap_const _ fun u _ => length_smd4Unk10Bytes u] at hunk10s
  rw [length_flatMap_const _ fun n _ => length_smd4NodeBytes n] at hnodes
  have hmax : INT32_MAX = 2 ^ 31 - 1 := rfl
  have hcounts : 0 ≤ (Int32.ofNat s.unk10s.length).toInt ∧ 0 ≤ (Int32.ofNat s.nodes.length).toInt ∧
      0 ≤ (Int32.ofNat s.meshes.length).toInt := by
    rw [int32_toInt_ofNat (by omega), int32_toInt_ofNat (by omega), int32_toInt_ofNat hmeshes]
    omega
  obtain ⟨dataSize, hdataSize⟩ := exists_reads_i32 true [] flexible (show 12 + 4 ≤ B.length by omega)
  obtain ⟨faces, hfaces⟩ := exists_reads_i32 true [] flexible (show 56 + 4 ≤ B.length by omega)
  obtain ⟨edges, hedges⟩ := exists_reads_i32 true [] flexible (show 60 + 4 ≤ B.length by omega)
  unfold smd4ReadHead
  refine Reads.ascii h.magic (Reads.i32 h.version (Reads.check hversion (Reads.i32 h.dataOffset (hdataSize.bind
    (Reads.i32 h.countUnk10 (Reads.i32 h.nodeCount (Reads.i32 h.meshCount (Reads.assertI32 h.meshCount2
      (List.mem_singleton.2 rfl) (Reads.check hcounts ?_)))))))))
  refine Reads.vec3 h.bbMin (Reads.vec3 h.bbMax (hfaces.bind (hedges.bind ?_)))
  have hzeros := readsBack_pattern 32 0 ⟨B, 64, true, false, [], flexible⟩ rfl h.zeros
  exact hzeros.bind (Reads.pure _ _)

/-! ### The file -/

/-- The shadow mesh that the file of one gives, if the reader takes it. -/
def Smd4.back (os : Win32) (s : Smd4) : Option Smd4 :=
  (s.unk10s.mapM (Smd4Unk10.back os)).bind fun us => (s.nodes.mapM (Smd4Node.back os)).bind fun ns =>
    (s.meshes.mapM Smd4Mesh.back).map fun ms => ms.foldl Smd4.pushMesh (ns.foldl Smd4.pushNode
      (us.foldl Smd4.pushUnk10 ⟨s.version, s.bbMin, s.bbMax, [], 0, [], 0, [], 0⟩))

theorem answers_smd4Read {s : Smd4} {dataStart : Nat} {offsets : Nat → Nat × Nat}
    (h : Smd4Image os s dataStart offsets B) (hversion : s.version = SF_SMD4_VERSION_0x40001)
    (hformat : ∀ m ∈ s.meshes, smd4VertexSize m.vertexFormat ≠ 0) (hB : B.length < 2 ^ 31) :
    Answers (smd4Read os) ⟨B, 0, true, false, [], flexible⟩ (s.back os)
      ⟨B, s.base + 80 * (0 + s.meshes.length), true, false, [], flexible⟩ := by
  have hmax : INT32_MAX = 2 ^ 31 - 1 := rfl
  have hunk10s := h.unk10s.le
  have hnodes := h.nodes.le
  rw [length_flatMap_const _ fun u _ => length_smd4Unk10Bytes u] at hunk10s
  rw [length_flatMap_const _ fun n _ => length_smd4NodeBytes n] at hnodes
  have hmeshes : s.meshes.length ≤ INT32_MAX := by
    cases hlen : s.meshes.length with
    | zero => exact Nat.zero_le _
    | succ k =>
        have hlast := (h.headers k (s.meshes[k]) (List.getElem?_eq_getElem _)).bufferLength.le
        rw [length_wordBytes] at hlast
        omega
  have hcreate : Yields smd4Create ⟨SF_SMD4_VERSION_0x40001, ⟨0, 0, 0⟩, ⟨0, 0, 0⟩, [], 0, [], 0, [], 0⟩ :=
    (Yields.pure _).alloc
  have hvalue : s.back os = ((s.unk10s.mapM (Smd4Unk10.back os)).map (·.foldl Smd4.pushUnk10
      ⟨s.version, s.bbMin, s.bbMax, [], 0, [], 0, [], 0⟩)).bind fun s1 =>
        ((s.nodes.mapM (Smd4Node.back os)).map (·.foldl Smd4.pushNode s1)).bind fun s2 =>
          (s.meshes.mapM Smd4Mesh.back).map (·.foldl Smd4.pushMesh s2) := by
    unfold Smd4.back
    cases s.unk10s.mapM (Smd4Unk10.back os) <;> cases s.nodes.mapM (Smd4Node.back os) <;> rfl
  rw [hvalue]
  refine Reads.answers (reads_smd4ReadHead h hversion hB hmeshes) (Reads.answers (hcreate.reads _) ?_)
  rw [int32_toInt_ofNat (by omega), int32_toInt_ofNat (by omega), int32_toInt_ofNat hmeshes, Int.toNat_natCast,
    Int.toNat_natCast, Int.toNat_natCast]
  refine (answers_smd4ReadUnk10s _ h.unk10s _).bind fun s1 _ => (answers_smd4ReadNodes _ h.nodes s1).bind fun s2 _ => ?_
  have hall := @answers_smd4ReadMeshes B flexible _ _ _ hB h.dataFits s.meshes hformat 0
    (fun i m hm => by rw [Nat.zero_add]; exact h.headers i m hm)
    (fun i m hm => by rw [Nat.zero_add]; exact h.data i m hm) s2
  rw [hversion]
  exact hall

end Reading

/-! ## What is the same -/

theorem mapM_eq_some_iff {α β : Type} {f : α → Option β} {l : List α} {l' : List β} :
    l.mapM f = some l' ↔ l.map f = l'.map some := by
  induction l generalizing l' with
  | nil => cases l' <;> simp
  | cons a l ih =>
      rw [List.mapM_cons, List.map_cons]
      cases l' with
      | nil => cases f a <;> cases l.mapM f <;> simp
      | cons b l' =>
          rw [List.map_cons, List.cons.injEq, ← ih]
          cases f a <;> cases l.mapM f <;> simp

/-- The same bounding box, entries and nodes, and the same meshes as far as their formats store them. -/
structure Smd4.Same (s s' : Smd4) : Prop where
  bbMin : s.bbMin = s'.bbMin
  bbMax : s.bbMax = s'.bbMax
  unk10s : s.unk10s = s'.unk10s
  nodes : s.nodes = s'.nodes
  meshes : s.meshes.map Smd4Mesh.stored = s'.meshes.map Smd4Mesh.stored

theorem foldl_pushUnk10 (us : List Smd4Unk10) (s : Smd4) :
    ∃ cap, us.foldl Smd4.pushUnk10 s = { s with unk10s := s.unk10s ++ us, unk10Cap := cap } := by
  induction us generalizing s with
  | nil => exact ⟨s.unk10Cap, by simp⟩
  | cons u us ih =>
      obtain ⟨cap, hcap⟩ := ih (s.pushUnk10 u)
      refine ⟨cap, ?_⟩
      rw [List.foldl_cons, hcap]
      simp [Smd4.pushUnk10]

theorem foldl_pushNode (ns : List Smd4Node) (s : Smd4) :
    ∃ cap, ns.foldl Smd4.pushNode s = { s with nodes := s.nodes ++ ns, nodeCap := cap } := by
  induction ns generalizing s with
  | nil => exact ⟨s.nodeCap, by simp⟩
  | cons n ns ih =>
      obtain ⟨cap, hcap⟩ := ih (s.pushNode n)
      refine ⟨cap, ?_⟩
      rw [List.foldl_cons, hcap]
      simp [Smd4.pushNode]

theorem foldl_pushMesh (ms : List Smd4Mesh) (s : Smd4) :
    ∃ cap, ms.foldl Smd4.pushMesh s = { s with meshes := s.meshes ++ ms, meshCap := cap } := by
  induction ms generalizing s with
  | nil => exact ⟨s.meshCap, by simp⟩
  | cons m ms ih =>
      obtain ⟨cap, hcap⟩ := ih (s.pushMesh m)
      refine ⟨cap, ?_⟩
      rw [List.foldl_cons, hcap]
      simp [Smd4.pushMesh]

theorem foldl_push (us : List Smd4Unk10) (ns : List Smd4Node) (ms : List Smd4Mesh) (s : Smd4) :
    ∃ unk10Cap nodeCap meshCap, ms.foldl Smd4.pushMesh (ns.foldl Smd4.pushNode (us.foldl Smd4.pushUnk10 s)) =
      ⟨s.version, s.bbMin, s.bbMax, s.unk10s ++ us, unk10Cap, s.nodes ++ ns, nodeCap, s.meshes ++ ms, meshCap⟩ := by
  obtain ⟨unk10Cap, hunk10s⟩ := foldl_pushUnk10 us s
  rw [hunk10s]
  obtain ⟨nodeCap, hnodes⟩ := foldl_pushNode ns { s with unk10s := s.unk10s ++ us, unk10Cap := unk10Cap }
  rw [hnodes]
  obtain ⟨meshCap, hmeshes⟩ := foldl_pushMesh ms
    ⟨s.version, s.bbMin, s.bbMax, s.unk10s ++ us, unk10Cap, s.nodes ++ ns, nodeCap, s.meshes, s.meshCap⟩
  exact ⟨unk10Cap, nodeCap, meshCap, hmeshes⟩

section

variable {os : Win32}

theorem smd4Unk10_back_eq_iff {u : Smd4Unk10} (h : (u.name.field os).isSome = true) :
    u.back os = some u ↔ u.name.Kept os := by
  rw [Smd4Name.kept_iff h, Smd4Unk10.back]
  cases u with
  | mk unk00 unk01 unk02 unk03 name => cases Smd4Name.ofField os (name.fieldBytes os) <;> simp

theorem smd4Node_back_eq_iff {n : Smd4Node} (h : (n.name.field os).isSome = true) :
    n.back os = some n ↔ n.name.Kept os := by
  rw [Smd4Name.kept_iff h, Smd4Node.back]
  cases n with
  | mk name => cases Smd4Name.ofField os (name.fieldBytes os) <;> simp

theorem Smd4Vertex.stored_stored (format : UInt8) (v : Smd4Vertex) : (v.stored format).stored format = v.stored format := by
  unfold stored
  by_cases h0 : format = 0
  · simp [h0, smd4OneBone]
  · by_cases h1 : format = 1
    · simp [h1, smd4OneBone]
    · simp [h0, h1]

theorem Smd4Mesh.stored_stored (m : Smd4Mesh) : m.stored.stored = m.stored := by
  have h : (Smd4Vertex.stored m.vertexFormat ∘ Smd4Vertex.stored m.vertexFormat) = Smd4Vertex.stored m.vertexFormat :=
    funext fun v => Smd4Vertex.stored_stored _ v
  simp [stored, h]

theorem mapM_smd4Mesh_back (ms : List Smd4Mesh) :
    ms.mapM Smd4Mesh.back = if ∀ m ∈ ms, m.indices.length ≤ 65535 then some (ms.map Smd4Mesh.stored) else none := by
  by_cases hfew : ∀ m ∈ ms, m.indices.length ≤ 65535
  · rw [if_pos hfew, mapM_eq_some_iff, List.map_map]
    exact List.map_congr_left fun m hm => if_pos (hfew m hm)
  · rw [if_neg hfew]
    refine Option.eq_none_iff_forall_ne_some.2 fun ms' hms' => hfew fun m hm => ?_
    rw [mapM_eq_some_iff] at hms'
    have hmem : m.back ∈ ms'.map some := hms' ▸ List.mem_map_of_mem hm
    obtain ⟨m', -, hback⟩ := List.mem_map.1 hmem
    by_contra hmany
    rw [Smd4Mesh.back, if_neg hmany] at hback
    cases hback

/-- What comes back is the same exactly if the indices can be counted and the names come back. -/
theorem Smd4.back_same_iff {s : Smd4} (hunk10s : ∀ u ∈ s.unk10s, (u.name.field os).isSome = true)
    (hnodes : ∀ n ∈ s.nodes, (n.name.field os).isSome = true) :
    (∃ s', s.back os = some s' ∧ s'.Same s) ↔ (∀ m ∈ s.meshes, m.indices.length ≤ 65535) ∧
      (∀ u ∈ s.unk10s, u.name.Kept os) ∧ ∀ n ∈ s.nodes, n.name.Kept os := by
  constructor
  · rintro ⟨s', hback, hsame⟩
    obtain ⟨us, hus, hback⟩ := Option.bind_eq_some_iff.1 hback
    obtain ⟨ns, hns, hback⟩ := Option.bind_eq_some_iff.1 hback
    obtain ⟨ms, hms, rfl⟩ := Option.map_eq_some_iff.1 hback
    obtain ⟨unk10Cap, nodeCap, meshCap, hpush⟩ := foldl_push us ns ms ⟨s.version, s.bbMin, s.bbMax, [], 0, [], 0, [], 0⟩
    rw [hpush] at hsame
    obtain ⟨-, -, hus', hns', -⟩ := hsame
    rw [List.nil_append] at hus' hns'
    subst hus' hns'
    rw [mapM_eq_some_iff, List.map_inj_left] at hus hns
    refine ⟨?_, fun u hu => (smd4Unk10_back_eq_iff (hunk10s u hu)).1 (hus u hu),
      fun n hn => (smd4Node_back_eq_iff (hnodes n hn)).1 (hns n hn)⟩
    by_contra hmany
    rw [mapM_smd4Mesh_back, if_neg hmany] at hms
    cases hms
  · rintro ⟨hfew, hunk10Names, hnodeNames⟩
    have hus : s.unk10s.mapM (Smd4Unk10.back os) = some s.unk10s := by
      rw [mapM_eq_some_iff, List.map_inj_left]
      exact fun u hu => (smd4Unk10_back_eq_iff (hunk10s u hu)).2 (hunk10Names u hu)
    have hns : s.nodes.mapM (Smd4Node.back os) = some s.nodes := by
      rw [mapM_eq_some_iff, List.map_inj_left]
      exact fun n hn => (smd4Node_back_eq_iff (hnodes n hn)).2 (hnodeNames n hn)
    have hstored : (Smd4Mesh.stored ∘ Smd4Mesh.stored) = Smd4Mesh.stored := funext fun m => m.stored_stored
    obtain ⟨unk10Cap, nodeCap, meshCap, hpush⟩ := foldl_push s.unk10s s.nodes (s.meshes.map Smd4Mesh.stored)
      ⟨s.version, s.bbMin, s.bbMax, [], 0, [], 0, [], 0⟩
    refine ⟨⟨s.version, s.bbMin, s.bbMax, [] ++ s.unk10s, unk10Cap, [] ++ s.nodes, nodeCap,
      [] ++ s.meshes.map Smd4Mesh.stored, meshCap⟩, ?_, ⟨rfl, rfl, List.nil_append _, List.nil_append _, ?_⟩⟩
    · rw [Smd4.back, hus, hns, mapM_smd4Mesh_back, if_pos hfew]
      exact congrArg some hpush
    · simp only [List.nil_append, List.map_map, hstored]

/-! ## Objects -/

/-- The shadow meshes that are created or read and then changed. A call that fails leaves at most a larger array. -/
inductive Smd4Built (os : Win32) : Smd4 → Prop where
  | create {s : Smd4} {heap heap' : Heap} (h : smd4Create heap = (.ok s, heap')) : Smd4Built os s
  | read {flexible : Bool} {data : List UInt8} {s : Smd4} {heap heap' : Heap}
      (h : smd4ReadFromMemory os flexible data heap = (.ok s, heap')) : Smd4Built os s
  | addUnk10 {s s' : Smd4} {u : Smd4Unk10} {heap heap' : Heap} (hs : Smd4Built os s)
      (h : smd4AddUnk10 s u heap = (.ok s', heap')) : Smd4Built os s'
  | addNode {s s' : Smd4} {n : Smd4Node} {heap heap' : Heap} (hs : Smd4Built os s)
      (h : smd4AddNode s n heap = (.ok s', heap')) : Smd4Built os s'
  | addMesh {s s' : Smd4} {m : Smd4Mesh} {heap heap' : Heap} (hs : Smd4Built os s)
      (h : smd4AddMesh s m heap = (.ok s', heap')) : Smd4Built os s'
  | grown {s : Smd4} (hs : Smd4Built os s) (unk10Cap nodeCap meshCap : Nat) :
      Smd4Built os { s with unk10Cap := unk10Cap, nodeCap := nodeCap, meshCap := meshCap }
  | setFields {s : Smd4} (hs : Smd4Built os s) (version : Int32) (bbMin bbMax : Vec3) :
      Smd4Built os { s with version := version, bbMin := bbMin, bbMax := bbMax }

/-- Every mesh has one of the three formats. -/
def Smd4.Formatted (s : Smd4) : Prop := ∀ m ∈ s.meshes, smd4VertexSize m.vertexFormat ≠ 0

theorem returns_smd4GrowUnk10s {s : Smd4} (hs : s.Formatted) : Returns (smd4GrowUnk10s s) Smd4.Formatted :=
  Returns.after fun _ => Returns.pure hs

theorem returns_smd4GrowNodes {s : Smd4} (hs : s.Formatted) : Returns (smd4GrowNodes s) Smd4.Formatted :=
  Returns.after fun _ => Returns.pure hs

theorem returns_smd4GrowMeshes {s : Smd4} (hs : s.Formatted) : Returns (smd4GrowMeshes s) Smd4.Formatted :=
  Returns.after fun _ => Returns.pure hs

theorem Smd4.Formatted.append {s : Smd4} (hs : s.Formatted) {m : Smd4Mesh} (hm : smd4VertexSize m.vertexFormat ≠ 0) :
    Smd4.Formatted { s with meshes := s.meshes ++ [m] } := by
  intro m' hm'
  rcases List.mem_append.1 hm' with hold | hnew
  · exact hs m' hold
  · rw [List.mem_singleton.1 hnew]
    exact hm

theorem returns_smd4AddMesh {s : Smd4} (hs : s.Formatted) (m : Smd4Mesh) : Returns (smd4AddMesh s m) Smd4.Formatted :=
  Returns.check fun hformat => (returns_smd4GrowMeshes hs).bind fun _ hs' => Returns.after fun _ => Returns.after fun _ =>
    Returns.pure (hs'.append hformat)

theorem returns_smd4ReadUnk10s (n : Nat) {s : Smd4} (hs : s.Formatted) : Returns (smd4ReadUnk10s os n s) Smd4.Formatted := by
  induction n generalizing s with
  | zero => exact Returns.pure hs
  | succ n ih => exact Returns.after fun u => (Returns.zoom (returns_smd4GrowUnk10s hs)).bind fun s' hs' => ih hs'

theorem returns_smd4ReadNodes (n : Nat) {s : Smd4} (hs : s.Formatted) : Returns (smd4ReadNodes os n s) Smd4.Formatted := by
  induction n generalizing s with
  | zero => exact Returns.pure hs
  | succ n ih => exact Returns.after fun u => (Returns.zoom (returns_smd4GrowNodes hs)).bind fun s' hs' => ih hs'

theorem returns_smd4ReadMesh (dataOffset version : Int32) {s : Smd4} (hs : s.Formatted) :
    Returns (smd4ReadMesh dataOffset version s) Smd4.Formatted :=
  Returns.check fun _ => Returns.after fun _ => Returns.after fun _ => Returns.after fun _ => Returns.after fun _ =>
    Returns.after fun _ => Returns.after fun _ => Returns.after fun _ => Returns.after fun _ => Returns.check fun _ =>
      Returns.after fun _ => Returns.after fun _ => Returns.after fun _ => Returns.check fun hformat => Returns.check fun _ =>
        Returns.after fun _ => (Returns.zoom (returns_smd4GrowMeshes hs)).bind fun _ hs' => Returns.pure (hs'.append hformat)

theorem returns_smd4ReadMeshes (dataOffset version : Int32) (n : Nat) {s : Smd4} (hs : s.Formatted) :
    Returns (smd4ReadMeshes dataOffset version n s) Smd4.Formatted := by
  induction n generalizing s with
  | zero => exact Returns.pure hs
  | succ n ih => exact (returns_smd4ReadMesh dataOffset version hs).bind fun s' hs' => ih hs'

theorem returns_smd4Create : Returns smd4Create Smd4.Formatted := Returns.after fun _ => Returns.pure nofun

theorem returns_smd4Read : Returns (smd4Read os) Smd4.Formatted := by
  refine Returns.after fun head => (Returns.zoom returns_smd4Create).bind fun s hs => ?_
  have hstart : Smd4.Formatted { s with version := head.version, bbMin := head.bbMin, bbMax := head.bbMax } := hs
  exact (returns_smd4ReadUnk10s _ hstart).bind fun _ hs => (returns_smd4ReadNodes _ hs).bind fun _ hs =>
    returns_smd4ReadMeshes _ _ _ hs

theorem Smd4Built.formatted {s : Smd4} (h : Smd4Built os s) : s.Formatted := by
  induction h with
  | create h => exact returns_smd4Create _ _ _ h
  | read h =>
      obtain ⟨_, _, hrun, -⟩ := BinaryReader.onMemory_eq_ok (congrArg Prod.fst h)
      exact returns_smd4Read _ _ _ hrun
  | addUnk10 _ h ih =>
      exact ((returns_smd4GrowUnk10s ih).bind fun _ hs => Returns.pure hs : Returns (smd4AddUnk10 _ _) _) _ _ _ h
  | addNode _ h ih =>
      exact ((returns_smd4GrowNodes ih).bind fun _ hs => Returns.pure hs : Returns (smd4AddNode _ _) _) _ _ _ h
  | addMesh _ h ih => exact returns_smd4AddMesh ih _ _ _ _ h
  | grown _ _ _ _ ih => exact ih
  | setFields _ _ _ _ ih => exact ih

/-- What the reader does with the file of a shadow mesh. -/
theorem smd4ReadFromMemory_of_written {s : Smd4} (hformatted : s.Formatted) {heap heap' : Heap} {out : List UInt8}
    (hwrite : (smd4WriteToMemory os s heap).1 = .ok out) (hsize : out.length < 2 ^ 31) (hcalm : heap'.Calm)
    (flexible : Bool) :
    (∃ s', (smd4ReadFromMemory os flexible out heap').1 = .ok s' ∧ s'.Same s) ↔
    (∀ m ∈ s.meshes, m.indices.length ≤ 65535) ∧ (∀ u ∈ s.unk10s, u.name.Kept os) ∧ ∀ n ∈ s.nodes, n.name.Kept os := by
  have hversion : s.version = SF_SMD4_VERSION_0x40001 := by
    by_contra hne
    rw [smd4WriteToMemory, check_bind_neg hne] at hwrite
    cases hwrite
  rw [smd4WriteToMemory, check_bind_pos hversion] at hwrite
  obtain ⟨_, -, ⟨dataStart, offsets, himage⟩, -⟩ := (puts_smd4Write s).toMemory nofun hwrite
  have hread : ∀ s', (smd4ReadFromMemory os flexible out heap').1 = .ok s' ↔ s.back os = some s' := fun _ =>
    (answers_smd4Read himage hversion hformatted hsize).onMemory hcalm
  rw [← Smd4.back_same_iff himage.unk10Names himage.nodeNames]
  simp only [hread]

end

/-! ## Shadow meshes that can be written -/

section

open BinaryWriter

variable {os : Win32} {base : Nat}

theorem delivers_smd4WriteName {name : Smd4Name} (h : (name.field os).isSome = true) :
    Delivers (smd4Slots base) true false (writeFixStr os (some name.text) 32 0) (name.fieldBytes os) := by
  obtain ⟨x, hx⟩ := Option.isSome_iff_exists.1 h
  have hbytes : name.fieldBytes os = x := by rw [Smd4Name.fieldBytes, hx, Option.getD_some]
  intro pos live hfit
  rw [hbytes] at hfit ⊢
  refine Makes.last (Makes.emits hfit (fun w hw => ?_) (Makes.done ⟨rfl, rfl⟩ fun _ hB => hB))
  have hemits := emitsAt_writeFixStrImpl hw.atEnd.inv.ready (fun _ => utf8ToMbcs_steady os .shiftJis) (some name.text) 32 0
  rw [if_neg (by decide)] at hemits
  rw [← hx, Smd4Name.field, Option.map_eq_bind]
  exact hemits

theorem delivers_smd4WriteUnk10 {u : Smd4Unk10} (h : (u.name.field os).isSome = true) :
    Delivers (smd4Slots base) true false (smd4WriteUnk10 os u) (smd4Unk10Bytes os u) :=
  (delivers_u8 _).then ((delivers_u8 _).then ((delivers_u8 _).then ((delivers_u8 _).then (delivers_smd4WriteName h))))

theorem delivers_smd4WriteNode {n : Smd4Node} (h : (n.name.field os).isSome = true) :
    Delivers (smd4Slots base) true false (smd4WriteNode os n) (smd4NodeBytes os n) :=
  (delivers_smd4WriteName h).then ((delivers_vec3 _).then ((delivers_vec3 _).then ((delivers_vec3 _).then
    ((delivers_vec3 _).then ((delivers_vec3 _).then ((delivers_i16 _).then ((delivers_i16 _).then ((delivers_i16 _).then
      ((delivers_i16 _).then ((delivers_i32 _).then ((delivers_i32 _).then ((delivers_i32 _).then
        (delivers_i32s _)))))))))))))

/-- A vertex with one bone. -/
theorem delivers_smd4WriteVertex (v : Smd4Vertex) :
    Delivers (smd4Slots base) true false (smd4WriteVertex 0 v) (smd4VertexBytes 0 v) :=
  (delivers_vec3 _).then ((delivers_i16 _).then (delivers_i16 _))

theorem exists_smd4FaceCounts {m : Smd4Mesh} (hm : m.indices.length ≤ 2 ^ 24) :
    ∃ counts, smd4FaceCounts [m] = .ok counts := by
  have hfew : 0 ≤ (smd4FaceCount m).toInt ∧ (smd4FaceCount m).toInt ≤ 2 ^ 24 := by
    unfold smd4FaceCount
    split
    · decide
    · rw [BinaryReader.int32_toInt_ofNat (show m.indices.length / 3 ≤ 2 ^ 31 - 1 by omega)]
      omega
  refine ⟨(Int32.ofInt (smd4FaceCount m).toInt, Int32.ofInt ((smd4FaceCount m).toInt * 3)), ?_⟩
  unfold smd4FaceCounts smd4FaceSum smd4FaceSum
  rw [zero_add, if_pos (by omega)]
  exact if_pos (by omega)

theorem makes_smd4WriteMeshHeader (m : Smd4Mesh) {pos : Nat} {live : Set (Smd4Slot × Option Nat)} (hpos : pos = base)
    (hfit : pos + 80 ≤ fileRoom) (hindices : (.vertexIndicesOffset, some 0) ∉ live)
    (hbuffer : (.vertexBufferOffset, some 0) ∉ live) :
    Makes (smd4Slots base) (forIndexed smd4WriteMeshHeader 0 [m]) ⟨pos, true, false⟩ live
      (fun _ st live' => st = ⟨pos + 80, true, false⟩ ∧
        live' = insert (.vertexBufferOffset, some 0) (insert (.vertexIndicesOffset, some 0) live)) fun _ _ _ => True := by
  subst hpos
  have hbones : (m.boneIndices.1.flatMap fun b => wordBytes true 2 b.toUInt16.toNat).length = 56 :=
    (length_flatMap_const _ fun _ _ => length_wordBytes ..).trans (by rw [m.boneIndices.2])
  unfold forIndexed smd4WriteMeshHeader
  simp only [bind_assoc]
  refine Makes.u8 (by omega) (Makes.u8 (by omega) (Makes.piece (delivers_bool _) (by simp; omega) (Makes.piece
    (delivers_bool _) (by simp; omega) ?_)))
  refine Makes.u16 (by simp; omega) (Makes.i16 (by simp; omega) (Makes.piece (delivers_i16s _) (by simp [m.boneIndices.2]; omega) ?_))
  rw [hbones]
  refine Makes.i32 (by simp; omega) (Makes.reserveI32 (.vertexIndicesOffset, some 0) rfl rfl hindices (by simp; omega)
    (Makes.i32 (by simp; omega) (Makes.reserveI32 (.vertexBufferOffset, some 0) rfl rfl ?_ (by simp; omega) ?_)))
  · simpa using hbuffer
  · refine Makes.done ⟨rfl, rfl⟩ ?_
    intros
    trivial

theorem makes_smd4FillOffset {dataStart pos : Nat} {live : Set (Smd4Slot × Option Nat)} (s : Smd4Slot)
    (hlive : (s, some 0) ∈ live) (hpos : dataStart ≤ pos) (hfit : pos ≤ INT32_MAX) :
    Makes (smd4Slots base) (smd4FillOffset dataStart (label (smd4Labels.base s) 0)) ⟨pos, true, false⟩ live
      (fun _ st live' => st = ⟨pos, true, false⟩ ∧ live' = live \ {(s, some 0)}) fun _ _ _ => True := by
  refine Makes.position (Makes.check ⟨hpos, by omega⟩ (Makes.last (Makes.fillI32 (s, some 0) rfl hlive ?_)))
  exact Makes.done ⟨rfl, rfl⟩ fun _ _ => trivial

/-- The indices and the vertices of a mesh of the first format. -/
theorem makes_smd4WriteData {m : Smd4Mesh} (hformat : m.vertexFormat = 0) {dataStart pos : Nat}
    {live : Set (Smd4Slot × Option Nat)} (hindices : (.vertexIndicesOffset, some 0) ∈ live)
    (hbuffer : (.vertexBufferOffset, some 0) ∈ live) (hpos : dataStart ≤ pos)
    (hfit : pos + 2 * m.indices.length + 16 * m.vertices.length + 16 ≤ INT32_MAX) :
    Makes (smd4Slots base) (forIndexed (smd4WriteData dataStart) 0 [m]) ⟨pos, true, false⟩ live
      (fun _ st live' => (∃ n < 16, st = ⟨pos + 2 * m.indices.length + n + 16 * m.vertices.length, true, false⟩) ∧
        live' = (live \ {(.vertexIndicesOffset, some 0)}) \ {(.vertexBufferOffset, some 0)}) fun _ _ _ => True := by
  have hmax : INT32_MAX = 2 ^ 31 - 1 := rfl
  have hroom : fileRoom = 2 ^ 40 := rfl
  have hwords : (m.indices.flatMap fun v => wordBytes true 2 v.toNat).length = 2 * m.indices.length :=
    (length_flatMap_const _ fun _ _ => length_wordBytes ..).trans (Nat.mul_comm _ _)
  have hvertices : (m.vertices.flatMap (smd4VertexBytes m.vertexFormat)).length = 16 * m.vertices.length := by
    rw [length_flatMap_const _ fun v _ => length_smd4VertexBytes (by rw [hformat]; decide) v, hformat]
    exact Nat.mul_comm _ _
  have hgiven : Delivers (smd4Slots base) true false (given (decide (0 < m.indices.length)) () (writeU16s m.indices))
      (m.indices.flatMap fun v => wordBytes true 2 v.toNat) := by
    refine Delivers.given (fun _ => delivers_u16s _) fun hnone => ?_
    have hempty : m.indices = [] := by simpa using hnone
    rw [hempty, List.flatMap_nil]
  unfold forIndexed smd4WriteData
  simp only [bind_assoc]
  refine (makes_smd4FillOffset .vertexIndicesOffset hindices hpos (by omega)).seq fun _ st live' h => ?_
  obtain ⟨rfl, rfl⟩ := h
  refine Makes.piece hgiven (by rw [hwords]; omega) ?_
  rw [hwords]
  refine Makes.pad (by decide) (by omega) fun n hn => ?_
  refine (makes_smd4FillOffset .vertexBufferOffset (by simpa using hbuffer) (by omega) (by omega)).seq fun _ st live' h => ?_
  obtain ⟨rfl, rfl⟩ := h
  refine Makes.piece (delivers_each _ fun v _ => ?_) (by rw [hvertices]; omega) ?_
  · rw [hformat]
    exact delivers_smd4WriteVertex v
  · rw [hvertices]
    refine Makes.done ⟨⟨n, hn, rfl⟩, rfl⟩ ?_
    intros
    trivial

/-- A shadow mesh with one mesh of the first format can be written, whatever the number of its indices. -/
theorem makes_smd4Write {s : Smd4} {m : Smd4Mesh} (hmeshes : s.meshes = [m]) (hformat : m.vertexFormat = 0)
    (hunk10Names : ∀ u ∈ s.unk10s, (u.name.field os).isSome = true)
    (hnodeNames : ∀ n ∈ s.nodes, (n.name.field os).isSome = true)
    (hsize : s.base + 2 * m.indices.length + 16 * m.vertices.length ≤ 2 ^ 24) :
    Makes (smd4Slots s.base) (smd4Write os s) ⟨0, true, false⟩ ∅ (fun _ st live => live = ∅ ∧ st.pos < 2 ^ 31)
      fun _ _ _ => True := by
  have hroom : fileRoom = 2 ^ 40 := rfl
  have hmax : INT32_MAX = 2 ^ 31 - 1 := rfl
  have hbase : s.base = 96 + 36 * s.unk10s.length + 144 * s.nodes.length := rfl
  have hmagic : (cstr "SMD4").length = 4 := rfl
  have hunk10s : (s.unk10s.flatMap (smd4Unk10Bytes os)).length = 36 * s.unk10s.length :=
    (length_flatMap_const _ fun u _ => length_smd4Unk10Bytes u).trans (Nat.mul_comm _ _)
  have hnodes : (s.nodes.flatMap (smd4NodeBytes os)).length = 144 * s.nodes.length :=
    (length_flatMap_const _ fun n _ => length_smd4NodeBytes n).trans (Nat.mul_comm _ _)
  obtain ⟨counts, hcounts⟩ := exists_smd4FaceCounts (show m.indices.length ≤ 2 ^ 24 by omega)
  unfold smd4Write
  rw [hmeshes, hcounts]
  refine Makes.bytes (by decide) (Makes.i32 (by decide) (Makes.reserveI32 (.dataOffset, none) rfl rfl (by simp) (by decide)
    (Makes.reserveI32 (.dataSize, none) rfl rfl (by simp) (by decide) ?_)))
  refine Makes.i32 (by decide) (Makes.i32 (by decide) (Makes.i32 (by decide) (Makes.i32 (by decide) (Makes.piece
    (delivers_vec3 _) (by rw [length_vec3Bytes]; decide) (Makes.piece (delivers_vec3 _) ?_ ?_)))))
  · rw [length_vec3Bytes, length_vec3Bytes]
    decide
  rw [length_vec3Bytes, length_vec3Bytes]
  have hlift : ∀ f : Int32 × Int32 → WriteM Unit, (lift (.ok counts) >>= f) = f counts := fun _ => rfl
  rw [hlift]
  refine Makes.i32 (by decide) (Makes.i32 (by decide) (Makes.piece (delivers_pattern _ _) (by decide) ?_))
  rw [List.length_replicate]
  refine Makes.piece (delivers_each _ fun u hu => delivers_smd4WriteUnk10 (hunk10Names u hu)) (by rw [hunk10s]; omega) ?_
  refine Makes.piece (delivers_each _ fun n hn => delivers_smd4WriteNode (hnodeNames n hn)) ?_ ?_
  · rw [hunk10s, hnodes]
    omega
  rw [hunk10s, hnodes]
  refine (makes_smd4WriteMeshHeader m (by omega) (by omega) (by simp) (by simp)).seq fun _ st live' h => ?_
  obtain ⟨rfl, rfl⟩ := h
  refine Makes.pad (by decide) (by omega) fun n hn => ?_
  refine Makes.position (Makes.check (by omega) (Makes.fillI32 (.dataOffset, none) rfl (by simp) ?_))
  refine (makes_smd4WriteData hformat (by simp) (by simp) (Nat.le_refl _) (by omega)).seq fun _ st live' h => ?_
  obtain ⟨⟨k, hk, rfl⟩, rfl⟩ := h
  refine Makes.pad (by decide) (by omega) fun l hl => ?_
  refine Makes.position (Makes.check (by omega) (Makes.last (Makes.fillI32 (.dataSize, none) rfl (by simp) ?_)))
  refine Makes.done ⟨?_, by dsimp only; omega⟩ ?_
  · refine Set.eq_empty_of_forall_notMem fun slot hslot => ?_
    simp only [Set.mem_sdiff, Set.mem_insert_iff, Set.mem_singleton_iff, Set.mem_empty_iff_false, or_false] at hslot
    tauto
  · intros
    trivial

theorem exists_smd4File {s : Smd4} {m : Smd4Mesh} (hversion : s.version = SF_SMD4_VERSION_0x40001)
    (hmeshes : s.meshes = [m]) (hformat : m.vertexFormat = 0)
    (hunk10Names : ∀ u ∈ s.unk10s, (u.name.field os).isSome = true)
    (hnodeNames : ∀ n ∈ s.nodes, (n.name.field os).isSome = true)
    (hsize : s.base + 2 * m.indices.length + 16 * m.vertices.length ≤ 2 ^ 24) :
    ∃ out, (smd4WriteToMemory os s []).1 = .ok out ∧ out.length < 2 ^ 31 := by
  obtain ⟨out, st, hrun, ⟨-, hpos⟩, -, hlen⟩ := (makes_smd4Write hmeshes hformat hunk10Names hnodeNames hsize).toMemory
    (fun _ _ h => h.1) Heap.calm_nil
  refine ⟨out, ?_, hlen ▸ hpos⟩
  rw [smd4WriteToMemory, check_bind_pos hversion]
  exact hrun

end

/-! ## The round trip -/

/-- **A shadow mesh comes back exactly if its index counts fit 16 bits and its names come back.** -/
theorem smd4_comesBack_iff {os : Win32} {s : Smd4} (hbuilt : Smd4Built os s) {heap heap' : Heap} {out : List UInt8}
    (hwrite : (smd4WriteToMemory os s heap).1 = .ok out) (hsize : out.length < 2 ^ 31) (hcalm : heap'.Calm)
    (flexible : Bool) :
    (∃ s', (smd4ReadFromMemory os flexible out heap').1 = .ok s' ∧ s'.Same s) ↔
    (∀ m ∈ s.meshes, m.indices.length ≤ 65535) ∧ (∀ u ∈ s.unk10s, u.name.Kept os) ∧ ∀ n ∈ s.nodes, n.name.Kept os :=
  smd4ReadFromMemory_of_written hbuilt.formatted hwrite hsize hcalm flexible

def smd4SampleUnk10 : Smd4Unk10 := ⟨1, 2, 3, 4, .ofChars (cstr "LOD")⟩

def smd4SampleNode : Smd4Node :=
  ⟨.ofChars (cstr "Root"), ⟨0, 0, 0⟩, ⟨0, 0, 0⟩, ⟨0x3F800000, 0x3F800000, 0x3F800000⟩, ⟨0, 0, 0⟩, ⟨0, 0, 0⟩, -1, -1, -1, -1, 0,
    0, 0, .ofList 8 0 []⟩

def smd4SampleMesh (indices : List UInt16) : Smd4Mesh :=
  ⟨0, 0, true, false, 0, .ofList 28 (-1) [0], indices, [⟨⟨0, 0, 0⟩, 0, 0, .ofList 4 0 [7], .ofList 4 0 []⟩]⟩

def smd4Sample (indices : List UInt16) : Smd4 :=
  ⟨SF_SMD4_VERSION_0x40001, ⟨0, 0, 0⟩, ⟨0, 0, 0⟩, [smd4SampleUnk10], 4, [smd4SampleNode], 4, [smd4SampleMesh indices], 4⟩

theorem smd4Sample_built (indices : List UInt16) : Smd4Built .ascii (smd4Sample indices) := by
  have hnodes := @Smd4Built.addNode _ _ _ smd4SampleNode [] [] (@Smd4Built.addUnk10 _ _ _ smd4SampleUnk10 [] []
    (@Smd4Built.create .ascii _ [] [] rfl) rfl) rfl
  refine @Smd4Built.addMesh _ _ _ (smd4SampleMesh indices) [] [] hnodes ?_
  cases indices <;> rfl

theorem smd4Sample_written {indices : List UInt16} (h : indices.length ≤ 2 ^ 20) :
    ∃ out, (smd4WriteToMemory .ascii (smd4Sample indices) []).1 = .ok out ∧ out.length < 2 ^ 31 := by
  refine exists_smd4File rfl rfl rfl ?_ ?_ ?_
  · simp only [smd4Sample, List.mem_singleton, forall_eq]
    decide +kernel
  · simp only [smd4Sample, List.mem_singleton, forall_eq]
    decide +kernel
  · show 96 + 36 * 1 + 144 * 1 + 2 * indices.length + 16 * 1 ≤ 2 ^ 24
    omega

theorem smd4Sample_comesBack_iff : ∃ out, (smd4WriteToMemory .ascii (smd4Sample [0, 1, 2]) []).1 = .ok out ∧
    ((∃ s', (smd4ReadFromMemory .ascii false out []).1 = .ok s' ∧ s'.Same (smd4Sample [0, 1, 2])) ↔
      (∀ m ∈ (smd4Sample [0, 1, 2]).meshes, m.indices.length ≤ 65535) ∧
        (∀ u ∈ (smd4Sample [0, 1, 2]).unk10s, u.name.Kept .ascii) ∧
          ∀ n ∈ (smd4Sample [0, 1, 2]).nodes, n.name.Kept .ascii) := by
  obtain ⟨out, hwrite, hsize⟩ := smd4Sample_written (show [(0 : UInt16), 1, 2].length ≤ 2 ^ 20 by decide)
  exact ⟨out, hwrite, smd4_comesBack_iff (smd4Sample_built _) hwrite hsize Heap.calm_nil false⟩

/-- A mesh with 65536 indices is written with an index count of zero, and its file is refused. -/
theorem smd4_65536_lost : ∃ s, Smd4Built .ascii s ∧
    s.meshes = [smd4SampleMesh (List.replicate 65536 0)] ∧ ∃ out, (smd4WriteToMemory .ascii s []).1 = .ok out ∧
      out.length < 2 ^ 31 ∧ ¬ ∃ s', (smd4ReadFromMemory .ascii false out []).1 = .ok s' ∧ s'.Same s := by
  have hlen : (List.replicate 65536 (0 : UInt16)).length = 65536 := List.length_replicate
  obtain ⟨out, hwrite, hsize⟩ := smd4Sample_written (hlen.trans_le (by decide))
  have hbuilt := smd4Sample_built (List.replicate 65536 0)
  refine ⟨_, hbuilt, rfl, out, hwrite, hsize, fun hback => ?_⟩
  have hfew := ((smd4ReadFromMemory_of_written hbuilt.formatted hwrite hsize Heap.calm_nil false).1 hback).1
    (smd4SampleMesh (List.replicate 65536 0)) List.mem_cons_self
  rw [smd4SampleMesh, hlen] at hfew
  omega

end SoulsFormats
