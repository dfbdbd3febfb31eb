import SoulsFormats.Misc.Smd4

set_option autoImplicit false

/-! # The file of a shadow mesh

What a successful run of the writer leaves in the file: the header, the tables of the named entries and the nodes, the
headers of the meshes with the offsets of their data, and the data. -/

namespace SoulsFormats

open Bytes Fallible

/-! ## Names -/

/-- The field of a name, if it can be converted. -/
def Smd4Name.field (os : Win32) (name : Smd4Name) : Option (List UInt8) :=
  (granted (utf8ToShiftJis os (some name.text) true)).map fun raw => raw.take 32 ++ List.replicate (32 - raw.length) 0

/-- The name that is read from a field, if it can be converted. -/
def Smd4Name.ofField (os : Win32) (field : List UInt8) : Option Smd4Name :=
  (granted (shiftJisToUtf8 os (cText field))).map .ofChars

/-- The name comes back from its field. -/
def Smd4Name.Kept (os : Win32) (name : Smd4Name) : Prop := (name.field os).bind (Smd4Name.ofField os) = some name

instance (os : Win32) (name : Smd4Name) : Decidable (name.Kept os) :=
  inferInstanceAs (Decidable ((name.field os).bind (Smd4Name.ofField os) = some name))

/-- The bytes of a field. -/
def Smd4Name.fieldBytes (os : Win32) (name : Smd4Name) : List UInt8 := (name.field os).getD (List.replicate 32 0)

variable {os : Win32}

@[simp] theorem Smd4Name.length_fieldBytes (name : Smd4Name) : (name.fieldBytes os).length = 32 := by
  unfold fieldBytes field
  cases granted (utf8ToShiftJis os (some name.text) true) with
  | none => simp
  | some raw =>
      simp
      omega

theorem Smd4Name.kept_iff {name : Smd4Name} (h : (name.field os).isSome = true) :
    name.Kept os ↔ Smd4Name.ofField os (name.fieldBytes os) = some name := by
  obtain ⟨x, hx⟩ := Option.isSome_iff_exists.1 h
  rw [Kept, fieldBytes, hx]
  rfl

/-! ## Records -/

def smd4Unk10Bytes (os : Win32) (u : Smd4Unk10) : List UInt8 :=
  [u.unk00] ++ ([u.unk01] ++ ([u.unk02] ++ ([u.unk03] ++ u.name.fieldBytes os)))

/-- The fields of a node after its name. -/
def smd4NodeRest (n : Smd4Node) : List UInt8 :=
  vec3Bytes true n.translation ++ (vec3Bytes true n.rotation ++ (vec3Bytes true n.scale ++ (vec3Bytes true n.bbMin ++
    (vec3Bytes true n.bbMax ++ (wordBytes true 2 n.parentIndex.toUInt16.toNat ++
      (wordBytes true 2 n.firstChildIndex.toUInt16.toNat ++ (wordBytes true 2 n.nextSiblingIndex.toUInt16.toNat ++
        (wordBytes true 2 n.prevSiblingIndex.toUInt16.toNat ++ (wordBytes true 4 n.unk64.toUInt32.toNat ++
          (wordBytes true 4 n.unk68.toUInt32.toNat ++ (wordBytes true 4 n.unk6c.toUInt32.toNat ++
            i32sBytes true n.unk70.1)))))))))))

def smd4NodeBytes (os : Win32) (n : Smd4Node) : List UInt8 := n.name.fieldBytes os ++ smd4NodeRest n

def smd4VertexBytes (format : UInt8) (v : Smd4Vertex) : List UInt8 :=
  if format = 0 then
    vec3Bytes true v.position ++ (wordBytes true 2 (v.boneIndices.1.getD 0 0).toUInt16.toNat ++
      wordBytes true 2 (0 : Int16).toUInt16.toNat)
  else if format = 1 then
    vec3Bytes true v.position ++ (wordBytes true 4 v.uvX.toNat ++ (wordBytes true 4 v.uvY.toNat ++
      (wordBytes true 2 (v.boneIndices.1.getD 0 0).toUInt16.toNat ++ wordBytes true 2 (0 : Int16).toUInt16.toNat)))
  else
    vec3Bytes true v.position ++ ((v.boneIndices.1.flatMap fun b => wordBytes true 2 b.toUInt16.toNat) ++
      v.boneWeights.1.flatMap fun f => wordBytes true 4 f.toNat)

/-- The header of a mesh up to the offset of its indices. -/
def smd4MeshHeadBytes (m : Smd4Mesh) : List UInt8 :=
  [m.vertexFormat] ++ ([m.unk01] ++ ([if m.unk02 then 1 else 0] ++ ([if m.unk03 then 1 else 0] ++
    (wordBytes true 2 (UInt16.ofNat m.indices.length).toNat ++ (wordBytes true 2 m.unk06.toUInt16.toNat ++
      ((m.boneIndices.1.flatMap fun b => wordBytes true 2 b.toUInt16.toNat) ++
        wordBytes true 4 (Int32.ofNat (m.indices.length * 2)).toUInt32.toNat))))))

@[simp] theorem length_smd4Unk10Bytes (u : Smd4Unk10) : (smd4Unk10Bytes os u).length = 36 := by
  simp [smd4Unk10Bytes]

@[simp] theorem length_smd4NodeBytes (n : Smd4Node) : (smd4NodeBytes os n).length = 144 := by
  have hlen := n.unk70.2
  simp [smd4NodeBytes, smd4NodeRest, hlen]

@[simp] theorem length_smd4VertexBytes {format : UInt8} (hformat : smd4VertexSize format ≠ 0) (v : Smd4Vertex) :
    (smd4VertexBytes format v).length = smd4VertexSize format := by
  have hindices : (v.boneIndices.1.flatMap fun b => wordBytes true 2 b.toUInt16.toNat).length = 4 * 2 :=
    (length_flatMap_const _ fun _ _ => length_wordBytes ..).trans (by rw [v.boneIndices.2])
  have hweights : (v.boneWeights.1.flatMap fun f => wordBytes true 4 f.toNat).length = 4 * 4 :=
    (length_flatMap_const _ fun _ _ => length_wordBytes ..).trans (by rw [v.boneWeights.2])
  unfold smd4VertexSize at hformat ⊢
  unfold smd4VertexBytes
  by_cases h0 : format = 0
  · simp [h0]
  · by_cases h1 : format = 1
    · simp [h1]
    · by_cases h2 : format = 2
      · rw [if_neg h0, if_neg h1, if_neg h0, if_neg h1, if_pos h2, List.length_append, List.length_append, hindices, hweights,
          length_vec3Bytes]
      · rw [if_neg h0, if_neg h1, if_neg h2] at hformat
        exact absurd rfl hformat

/-! ## The image -/

/-- Where the headers of the meshes begin. -/
def Smd4.base (s : Smd4) : Nat := 96 + 36 * s.unk10s.length + 144 * s.nodes.length

/-- What the file has of the header of the mesh with some index, its offsets apart. -/
structure Smd4HeaderAt (base index : Nat) (m : Smd4Mesh) (B : List UInt8) : Prop where
  head : Holds B (base + 80 * index) (smd4MeshHeadBytes m)
  bufferLength : Holds B (base + 80 * index + 72)
    (wordBytes true 4 (Int32.ofNat (m.vertices.length * smd4VertexSize m.vertexFormat)).toUInt32.toNat)

/-- The indices and vertices of a mesh, and their offsets in its header. -/
structure Smd4DataAt (base dataStart index : Nat) (m : Smd4Mesh) (offsets : Nat × Nat) (B : List UInt8) : Prop where
  indicesOffset : Holds B (base + 80 * index + 68) (wordBytes true 4 (Int32.ofNat offsets.1).toUInt32.toNat)
  bufferOffset : Holds B (base + 80 * index + 76) (wordBytes true 4 (Int32.ofNat offsets.2).toUInt32.toNat)
  indicesFit : offsets.1 ≤ INT32_MAX
  bufferFit : offsets.2 ≤ INT32_MAX
  indices : 0 < m.indices.length → Holds B (dataStart + offsets.1) (m.indices.flatMap fun v => wordBytes true 2 v.toNat)
  vertices : Holds B (dataStart + offsets.2) (m.vertices.flatMap (smd4VertexBytes m.vertexFormat))

structure Smd4Image (os : Win32) (s : Smd4) (dataStart : Nat) (offsets : Nat → Nat × Nat) (B : List UInt8) : Prop where
  magic : Holds B 0 (cstr "SMD4")
  version : Holds B 4 (wordBytes true 4 s.version.toUInt32.toNat)
  dataOffset : Holds B 8 (wordBytes true 4 (Int32.ofNat dataStart).toUInt32.toNat)
  countUnk10 : Holds B 16 (wordBytes true 4 (Int32.ofNat s.unk10s.length).toUInt32.toNat)
  nodeCount : Holds B 20 (wordBytes true 4 (Int32.ofNat s.nodes.length).toUInt32.toNat)
  meshCount : Holds B 24 (wordBytes true 4 (Int32.ofNat s.meshes.length).toUInt32.toNat)
  meshCount2 : Holds B 28 (wordBytes true 4 (Int32.ofNat s.meshes.length).toUInt32.toNat)
  bbMin : Holds B 32 (vec3Bytes true s.bbMin)
  bbMax : Holds B 44 (vec3Bytes true s.bbMax)
  zeros : Holds B 64 (List.replicate 32 0)
  unk10s : Holds B 96 (s.unk10s.flatMap (smd4Unk10Bytes os))
  unk10Names : ∀ u ∈ s.unk10s, (u.name.field os).isSome = true
  nodes : Holds B (96 + 36 * s.unk10s.length) (s.nodes.flatMap (smd4NodeBytes os))
  nodeNames : ∀ n ∈ s.nodes, (n.name.field os).isSome = true
  dataFits : dataStart ≤ INT32_MAX
  headers : ∀ i m, s.meshes[i]? = some m → Smd4HeaderAt s.base i m B
  data : ∀ i m, s.meshes[i]? = some m → Smd4DataAt s.base dataStart i m (offsets i) B

/-! ## Writing -/

section Writing

open BinaryWriter

inductive Smd4Slot where
  | dataOffset | dataSize | vertexIndicesOffset | vertexBufferOffset
deriving DecidableEq

def smd4Labels : Labels Smd4Slot where
  base
    | .dataOffset => "DataOffset"
    | .dataSize => "DataSize"
    | .vertexIndicesOffset => "VertexIndicesOffset_"
    | .vertexBufferOffset => "VertexBufferOffset_"
  kind _ := .i32
  noDigits := by
    intro a
    cases a <;> decide
  inj := by
    intro a b h
    cases a <;> cases b <;> first | rfl | exact absurd h (by decide)

def smd4Addr (base : Nat) : Smd4Slot → Option Nat → Nat
  | .dataOffset, _ => 8
  | .dataSize, _ => 12
  | .vertexIndicesOffset, index => base + 80 * index.getD 0 + 68
  | .vertexBufferOffset, index => base + 80 * index.getD 0 + 76

abbrev smd4Slots (base : Nat) : FileSlots (Smd4Slot × Option Nat) := smd4Labels.slots (smd4Addr base)

variable {base : Nat}

theorem sends_smd4WriteName (name : Smd4Name) :
    Sends (smd4Slots base) true false (writeFixStr os (some name.text) 32 0) (name.fieldBytes os)
      ((name.field os).isSome = true) := by
  have hemits : ∀ w : BinaryWriter, w.Ready →
      EmitsAt w (writeFixStr os (some name.text) 32 0) (name.field os) := by
    intro w hw
    have h := emitsAt_writeFixStrImpl hw (fun _ => utf8ToMbcs_steady os .shiftJis) (some name.text) 32 0
    rw [if_neg (by decide)] at h
    rw [Smd4Name.field, Option.map_eq_bind]
    exact h
  intro pos w w' v hw hrun
  obtain ⟨bs, hbs, -⟩ := (hemits w hw.atEnd.inv.ready).wrote hrun
  have hputs : Puts (smd4Slots base) (writeFixStr os (some name.text) 32 0) ⟨pos, true, false⟩
      (fun _ st => st = ⟨pos + (name.fieldBytes os).length, true, false⟩ ∧ (name.field os).isSome = true)
      fun _ _ B => Holds B pos (name.fieldBytes os) := by
    refine Puts.last (Puts.emits (x := name.fieldBytes os) (fun w hw => ⟨_, hemits w hw.atEnd.inv.ready, fun x hx => ?_⟩)
      (Puts.done ⟨rfl, ?_⟩ fun _ hB => hB))
    · rw [Smd4Name.fieldBytes, hx]
      rfl
    · rw [hbs]
      rfl
  exact hputs w w' v hw hrun

theorem sends_smd4WriteUnk10 (u : Smd4Unk10) :
    Sends (smd4Slots base) true false (smd4WriteUnk10 os u) (smd4Unk10Bytes os u) ((u.name.field os).isSome = true) :=
  (sends_u8 _).then fun _ => (sends_u8 _).then fun _ => (sends_u8 _).then fun _ => (sends_u8 _).then fun _ =>
    sends_smd4WriteName u.name

theorem sends_smd4WriteNode (n : Smd4Node) :
    Sends (smd4Slots base) true false (smd4WriteNode os n) (smd4NodeBytes os n) ((n.name.field os).isSome = true) := by
  refine (sends_smd4WriteName n.name).then fun hname => Sends.imp ?_ fun _ : True => hname
  exact (sends_vec3 _).then fun _ => (sends_vec3 _).then fun _ => (sends_vec3 _).then fun _ => (sends_vec3 _).then fun _ =>
    (sends_vec3 _).then fun _ => (sends_i16 _).then fun _ => (sends_i16 _).then fun _ => (sends_i16 _).then fun _ =>
      (sends_i16 _).then fun _ => (sends_i32 _).then fun _ => (sends_i32 _).then fun _ => (sends_i32 _).then fun _ =>
        sends_i32s _

theorem sends_smd4WriteVertex (format : UInt8) (v : Smd4Vertex) :
    Sends (smd4Slots base) true false (smd4WriteVertex format v) (smd4VertexBytes format v) True := by
  unfold smd4WriteVertex smd4VertexBytes
  by_cases h0 : format = 0
  · rw [if_pos h0, if_pos h0]
    exact (sends_vec3 _).then fun _ => (sends_i16 _).then fun _ => sends_i16 _
  · rw [if_neg h0, if_neg h0]
    by_cases h1 : format = 1
    · rw [if_pos h1, if_pos h1]
      exact (sends_vec3 _).then fun _ => (sends_f32 _).then fun _ => (sends_f32 _).then fun _ => (sends_i16 _).then fun _ =>
        sends_i16 _
    · rw [if_neg h1, if_neg h1]
      by_cases h2 : format = 2
      · rw [if_pos h2]
        exact (sends_vec3 _).then fun _ => (sends_i16s _).then fun _ => sends_f32s _
      · rw [if_neg h2]
        exact sends_fail _

theorem puts_smd4WriteMeshHeader (index : Nat) (m : Smd4Mesh) :
    Puts (smd4Slots base) (smd4WriteMeshHeader index m) ⟨base + 80 * index, true, false⟩
      (fun _ st => st = ⟨base + 80 * (index + 1), true, false⟩) fun _ _ B => Smd4HeaderAt base index m B := by
  have hbones : (m.boneIndices.1.flatMap fun b => wordBytes true 2 b.toUInt16.toNat).length = 56 :=
    (length_flatMap_const _ fun _ _ => length_wordBytes ..).trans (by rw [m.boneIndices.2])
  refine Puts.u8 (Puts.u8 (Puts.bool (Puts.bool (Puts.u16 (Puts.i16 (Puts.sent (sends_i16s _) fun _ => ?_))))))
  rw [hbones]
  refine Puts.i32 (Puts.reserveI32 (.vertexIndicesOffset, some index) rfl rfl (Puts.i32 ?_))
  refine Puts.last (Puts.reserveI32 (.vertexBufferOffset, some index) rfl rfl (Puts.done rfl ?_))
  intro B hlength hcount hindices hunk06 hunk h3 h2 h1 h0
  refine ⟨?_, hlength⟩
  unfold smd4MeshHeadBytes
  simp only [holds_append, hbones, length_wordBytes, List.length_singleton]
  exact ⟨h0, h1, h2, h3, hunk, hunk06, hindices, hcount⟩

theorem puts_smd4FillOffset {dataStart pos : Nat} (s : Smd4Slot) (index : Nat) :
    Puts (smd4Slots base) (smd4FillOffset dataStart (label (smd4Labels.base s) index)) ⟨pos, true, false⟩
      (fun _ st => st = ⟨pos, true, false⟩ ∧ dataStart ≤ pos ∧ pos - dataStart ≤ INT32_MAX) fun _ _ B =>
        Holds B (smd4Addr base s (some index)) (wordBytes true 4 (Int32.ofNat (pos - dataStart)).toUInt32.toNat) :=
  Puts.position (Puts.check fun hpos => Puts.last (Puts.fillI32 (s, some index) rfl (Puts.done ⟨rfl, hpos⟩ fun _ hB => hB)))

/-- What is written of a mesh behind all headers. -/
theorem puts_smd4WriteData {dataStart pos : Nat} (index : Nat) (m : Smd4Mesh) :
    Puts (smd4Slots base) (smd4WriteData dataStart index m) ⟨pos, true, false⟩ (fun _ st => st.Flags true false)
      fun _ _ B => ∃ offsets, Smd4DataAt base dataStart index m offsets B := by
  refine (puts_smd4FillOffset .vertexIndicesOffset index).seq fun _ st hst => ?_
  obtain ⟨rfl, hstart, hfit⟩ := hst
  have hindices : Puts (smd4Slots base) (given (decide (0 < m.indices.length)) () (writeU16s m.indices)) ⟨pos, true, false⟩
      (fun _ st => st.Flags true false) fun _ _ B =>
        0 < m.indices.length → Holds B pos (m.indices.flatMap fun v => wordBytes true 2 v.toNat) := by
    unfold given
    by_cases hsome : 0 < m.indices.length
    · rw [if_pos (by simpa using hsome)]
      refine Puts.conseq (sends_u16s m.indices pos) fun _ st hst => ⟨?_, fun _ hB _ => hB⟩
      rw [hst.1]
      exact ⟨rfl, rfl⟩
    · rw [if_neg (by simpa using hsome)]
      exact Puts.done ⟨rfl, rfl⟩ fun _ h => absurd h hsome
  refine hindices.seq fun _ st hst => ?_
  obtain ⟨p, be', long'⟩ := st
  obtain ⟨rfl, rfl⟩ := hst
  refine Puts.pad (by decide) ((puts_smd4FillOffset .vertexBufferOffset index).seq fun _ st hst => ?_)
  obtain ⟨rfl, hstart', hfit'⟩ := hst
  refine Puts.last (Puts.sent ((sends_each _ fun v _ => sends_smd4WriteVertex _ v).imp fun _ => trivial) fun _ => ?_)
  refine Puts.done ⟨rfl, rfl⟩ fun B hvertices hbuffer hindices hoffset => ?_
  refine ⟨(pos - dataStart, p + padLength p 0x10 - dataStart), hoffset, hbuffer, hfit, hfit', fun hsome => ?_, ?_⟩
  · rw [Nat.add_sub_cancel' hstart]
    exact hindices hsome
  · rw [Nat.add_sub_cancel' hstart']
    exact hvertices

theorem puts_smd4WriteHeaders (meshes : List Smd4Mesh) :
    Puts (smd4Slots base) (forIndexed smd4WriteMeshHeader 0 meshes) ⟨base, true, false⟩
      (fun _ st => st = ⟨base + 80 * meshes.length, true, false⟩) fun _ _ B =>
        ∀ i m, meshes[i]? = some m → Smd4HeaderAt base i m B := by
  refine puts_forIndexed (fun i st => st = ⟨base + 80 * i, true, false⟩) meshes (fun i m st _ hst => ?_) rfl
  subst hst
  exact puts_smd4WriteMeshHeader i m

theorem puts_smd4WriteDatas (meshes : List Smd4Mesh) (dataStart pos : Nat) :
    Puts (smd4Slots base) (forIndexed (smd4WriteData dataStart) 0 meshes) ⟨pos, true, false⟩
      (fun _ st => st.Flags true false) fun _ _ B =>
        ∀ i m, meshes[i]? = some m → ∃ offsets, Smd4DataAt base dataStart i m offsets B := by
  refine puts_forIndexed (fun _ st => st.Flags true false) meshes (fun i m st _ hst => ?_) ⟨rfl, rfl⟩
  obtain ⟨p, be', long'⟩ := st
  obtain ⟨rfl, rfl⟩ := hst
  exact puts_smd4WriteData i m

/-- **A shadow mesh that is written has its image in the file.** -/
theorem puts_smd4Write (s : Smd4) : Puts (smd4Slots s.base) (smd4Write os s) ⟨0, true, false⟩ (fun _ _ => True)
    fun _ _ B => ∃ dataStart offsets, Smd4Image os s dataStart offsets B := by
  have hunk10s : (s.unk10s.flatMap (smd4Unk10Bytes os)).length = 36 * s.unk10s.length :=
    (length_flatMap_const _ fun u _ => length_smd4Unk10Bytes u).trans (Nat.mul_comm _ _)
  have hnodes : (s.nodes.flatMap (smd4NodeBytes os)).length = 144 * s.nodes.length :=
    (length_flatMap_const _ fun n _ => length_smd4NodeBytes n).trans (Nat.mul_comm _ _)
  refine Puts.bytes (Puts.i32 (Puts.reserveI32 (.dataOffset, none) rfl rfl (Puts.reserveI32 (.dataSize, none) rfl rfl ?_)))
  refine Puts.i32 (Puts.i32 (Puts.i32 (Puts.i32 (Puts.sent (sends_vec3 _) fun _ => Puts.sent (sends_vec3 _) fun _ => ?_))))
  rw [length_vec3Bytes, length_vec3Bytes]
  have hlift : ∀ {β : Type} {st : Stand} {f : Int32 × Int32 → WriteM β} {Q : β → Stand → Prop}
      {G : β → Stand → List UInt8 → Prop}, (∀ v, Puts (smd4Slots s.base) (f v) st Q G) →
      Puts (smd4Slots s.base) (lift (smd4FaceCounts s.meshes) >>= f) st Q G := by
    intro β st f Q G hf w w' v hw hrun
    cases hcounts : smd4FaceCounts s.meshes with
    | error e =>
        rw [hcounts] at hrun
        cases hrun
    | ok counts =>
        rw [hcounts] at hrun
        exact hf counts w w' v hw hrun
  refine hlift fun counts => Puts.i32 (Puts.i32 (Puts.pattern (Puts.sent (sends_each _ fun u _ =>
    sends_smd4WriteUnk10 u) fun hnames => Puts.sent (sends_each _ fun n _ => sends_smd4WriteNode n) fun hnodeNames => ?_)))
  rw [hunk10s, hnodes]
  refine (puts_smd4WriteHeaders s.meshes).seq fun _ st hst => ?_
  subst hst
  refine Puts.pad (by decide) (Puts.position (Puts.check fun hfit => Puts.fillI32 (.dataOffset, none) rfl ?_))
  refine (puts_smd4WriteDatas s.meshes _ _).seq fun _ st hst => ?_
  obtain ⟨p, be', long'⟩ := st
  obtain ⟨rfl, rfl⟩ := hst
  refine Puts.pad (by decide) (Puts.position (Puts.check fun _ => Puts.last (Puts.fillI32 (.dataSize, none) rfl
    (Puts.done trivial ?_))))
  intro B _ hdata dataOffset headers nodes unk10s zeros _ _ bbMax bbMin meshCount2 meshCount nodeCount countUnk10 version
    magic
  obtain ⟨offsets, hoffsets⟩ := exists_places hdata
  exact ⟨_, offsets, magic, version, dataOffset, countUnk10, nodeCount, meshCount, meshCount2, bbMin, bbMax, zeros, unk10s,
    hnames, nodes, hnodeNames, hfit, headers, hoffsets⟩

end Writing

end SoulsFormats
