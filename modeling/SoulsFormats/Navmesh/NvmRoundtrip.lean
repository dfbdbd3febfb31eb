import SoulsFormats.Navmesh.Nvm

set_option autoImplicit false

/-! # Reading back a navmesh

The first recursion over the boxes queues an offset for every box and the second takes one for every box, both
with the children before their parent: what the second finds at the front of the queue is what the first has
queued for the same box. -/

namespace SoulsFormats

open Bytes Fallible

/-! ## Sizes -/

/-- The bytes of the triangle indices of a box and all boxes below it. -/
def NvmBox.indexSize : NvmBox → Nat
  | .null => 0
  | .box _ _ triangleIndices child0 child1 child2 child3 =>
    child0.indexSize + child1.indexSize + child2.indexSize + child3.indexSize + triangleIndices.length * 4

/-- The number of the boxes of a tree. -/
def NvmBox.count : NvmBox → Nat
  | .null => 0
  | .box _ _ _ child0 child1 child2 child3 => child0.count + child1.count + child2.count + child3.count + 1

/-- The size of the file. -/
def Nvm.imageSize (n : Nvm) : Nat :=
  0x80 + n.vertices.length * 12 + n.triangles.length * 28 + n.rootBox.indexSize + n.rootBox.count * 64
    + (n.entities.map fun e => e.triangleIndices.length * 4).sum + n.entities.length * 16

/-! ## What is stored -/

/-- What the first recursion queues from `pos` on. -/
def NvmBox.queued : NvmBox → Nat → List Int32
  | .null, _ => []
  | .box _ _ triangleIndices child0 child1 child2 child3, pos =>
    child0.queued pos ++ (child1.queued (pos + child0.indexSize) ++
      (child2.queued (pos + child0.indexSize + child1.indexSize) ++
        (child3.queued (pos + child0.indexSize + child1.indexSize + child2.indexSize) ++
          [if triangleIndices.length = 0 then 0
            else Int32.ofNat (pos + child0.indexSize + child1.indexSize + child2.indexSize + child3.indexSize)])))

/-- The triangle indices of a tree stand from `pos` on. -/
def NvmBox.IndicesAt (be : Bool) (B : List UInt8) : NvmBox → Nat → Prop
  | .null, _ => True
  | .box _ _ triangleIndices child0 child1 child2 child3, pos =>
    child0.IndicesAt be B pos ∧ child1.IndicesAt be B (pos + child0.indexSize) ∧
      child2.IndicesAt be B (pos + child0.indexSize + child1.indexSize) ∧
        child3.IndicesAt be B (pos + child0.indexSize + child1.indexSize + child2.indexSize) ∧
          (triangleIndices ≠ [] → Holds B
            (pos + child0.indexSize + child1.indexSize + child2.indexSize + child3.indexSize)
            (i32sBytes be triangleIndices))

/-- The record of a box. -/
def nvmBoxBytes (be : Bool) (minCorner maxCorner : Vec3) (triCount triOffset offset0 offset1 offset2 offset3 : Int32) :
    List UInt8 :=
  vec3Bytes be minCorner ++ (wordBytes be 4 triCount.toUInt32.toNat ++ (vec3Bytes be maxCorner ++
    i32sBytes be [triOffset, offset0, offset1, offset2, offset3, 0, 0, 0, 0]))

/-- The tree stands in the file with its root at this offset. -/
def NvmBox.At (be : Bool) (B : List UInt8) : NvmBox → Int32 → Prop
  | .null, offset => offset = 0
  | .box minCorner maxCorner triangleIndices child0 child1 child2 child3, offset =>
    ∃ (p : Nat) (triOffset offset0 offset1 offset2 offset3 : Int32), 0 < p ∧ p ≤ INT32_MAX ∧ offset = Int32.ofNat p ∧
      triangleIndices.length ≤ INT32_MAX ∧
      Holds B p (nvmBoxBytes be minCorner maxCorner (Int32.ofNat triangleIndices.length) triOffset offset0 offset1
        offset2 offset3) ∧
      (triangleIndices ≠ [] → I32sAt be B triangleIndices triOffset) ∧
      child0.At be B offset0 ∧ child1.At be B offset1 ∧ child2.At be B offset2 ∧ child3.At be B offset3

/-- The record of a triangle. -/
def nvmTriangleBytes (be : Bool) (t : NvmTriangle) : List UInt8 :=
  i32sBytes be [t.vertexIndex1, t.vertexIndex2, t.vertexIndex3, t.edgeIndex1, t.edgeIndex2, t.edgeIndex3, t.packed]

/-- The record of an entity. -/
def nvmEntityBytes (be : Bool) (e : NvmEntity) (offset : Int32) : List UInt8 :=
  i32sBytes be [e.entityId, offset, Int32.ofNat e.triangleIndices.length, 0]

@[simp] theorem length_nvmTriangleBytes (be : Bool) (t : NvmTriangle) : (nvmTriangleBytes be t).length = 28 := by
  simp [nvmTriangleBytes]

@[simp] theorem length_nvmEntityBytes (be : Bool) (e : NvmEntity) (offset : Int32) :
    (nvmEntityBytes be e offset).length = 16 := by
  simp [nvmEntityBytes]

@[simp] theorem length_nvmBoxBytes (be : Bool) (minCorner maxCorner : Vec3)
    (triCount triOffset offset0 offset1 offset2 offset3 : Int32) :
    (nvmBoxBytes be minCorner maxCorner triCount triOffset offset0 offset1 offset2 offset3).length = 64 := by
  simp [nvmBoxBytes, length_wordBytes]

/-! ## Writing -/

section Writing

open BinaryWriter

inductive NvmSlot where
  | vertexOffset | triangleOffset | rootBoxOffset | entityOffset
deriving DecidableEq

def nvmLabels : Labels NvmSlot where
  base
    | .vertexOffset => "VertexOffset"
    | .triangleOffset => "TriangleOffset"
    | .rootBoxOffset => "RootBoxOffset"
    | .entityOffset => "EntityOffset"
  kind _ := .i32
  noDigits := by
    intro a
    cases a <;> decide
  inj := by
    intro a b h
    cases a <;> cases b <;> first | rfl | exact absurd h (by decide)

def nvmAddr : NvmSlot → Option Nat → Nat
  | .vertexOffset, _ => 8
  | .triangleOffset, _ => 16
  | .rootBoxOffset, _ => 20
  | .entityOffset, _ => 32

abbrev nvmSlots : FileSlots (NvmSlot × Option Nat) := nvmLabels.slots nvmAddr

variable {be long : Bool} {live : Set (NvmSlot × Option Nat)}

theorem makes_nvmQueuePush (q : NvmOffsetQueue) (v : Int32) (st : Stand) :
    Makes nvmSlots (nvmQueuePush q v) st live
      (fun q' st' live' => st' = st ∧ live' = live ∧ q'.items = q.items ++ [v] ∧ q'.head = q.head)
      fun _ _ _ => True := by
  unfold nvmQueuePush given
  split
  · rw [bind_assoc]
    exact Makes.alloc fun _ => Makes.done ⟨rfl, rfl, rfl, rfl⟩ fun _ => trivial
  · exact Makes.done ⟨rfl, rfl, rfl, rfl⟩ fun _ => trivial

/-- The first recursion. -/
theorem makes_nvmWriteBoxTriangleIndices (b : NvmBox) :
    ∀ (q : NvmOffsetQueue) (pos : Nat) (live : Set (NvmSlot × Option Nat)), pos + b.indexSize ≤ INT32_MAX →
      Makes nvmSlots (nvmWriteBoxTriangleIndices b q) ⟨pos, be, long⟩ live
        (fun q' st live' => st = ⟨pos + b.indexSize, be, long⟩ ∧ live' = live ∧
          q'.items = q.items ++ b.queued pos ∧ q'.head = q.head) fun _ _ B => b.IndicesAt be B pos := by
  induction b with
  | null => exact fun q pos live _ => Makes.done ⟨rfl, rfl, (List.append_nil _).symm, rfl⟩ fun _ => trivial
  | box minCorner maxCorner triangleIndices child0 child1 child2 child3 ih0 ih1 ih2 ih3 =>
      intro q pos live hfit
      have hroom : INT32_MAX ≤ fileRoom := by decide
      rw [NvmBox.indexSize] at hfit
      refine (ih0 q pos live (by omega)).seq fun q0 st live' h0 => ?_
      obtain ⟨rfl, rfl, hq0, hhead0⟩ := h0
      refine (ih1 q0 _ _ (by omega)).seq fun q1 st live' h1 => ?_
      obtain ⟨rfl, rfl, hq1, hhead1⟩ := h1
      refine (ih2 q1 _ _ (by omega)).seq fun q2 st live' h2 => ?_
      obtain ⟨rfl, rfl, hq2, hhead2⟩ := h2
      refine (ih3 q2 _ _ (by omega)).seq fun q3 st live' h3 => ?_
      obtain ⟨rfl, rfl, hq3, hhead3⟩ := h3
      by_cases hempty : triangleIndices.length = 0
      · rw [if_pos hempty]
        refine (makes_nvmQueuePush q3 0 _).conseq fun q' st live' h => ?_
        obtain ⟨rfl, rfl, hq', hhead'⟩ := h
        refine ⟨⟨?_, rfl, ?_, by rw [hhead', hhead3, hhead2, hhead1, hhead0]⟩, fun B _ hB3 hB2 hB1 hB0 => ?_⟩
        · rw [NvmBox.indexSize, hempty]
          simp only [Nat.add_assoc, Nat.zero_mul, Nat.add_zero]
        · rw [hq', hq3, hq2, hq1, hq0, NvmBox.queued, if_pos hempty]
          simp only [List.append_assoc]
        · exact ⟨hB0, hB1, hB2, hB3, fun hne => absurd (List.length_eq_zero_iff.1 hempty) hne⟩
      · rw [if_neg hempty]
        refine Makes.position (Makes.check (by omega) ?_)
        refine (makes_nvmQueuePush q3 _ _).seq fun q' st live' h => ?_
        obtain ⟨rfl, rfl, hq', hhead'⟩ := h
        refine Makes.piece (delivers_i32s _) (by rw [length_i32sBytes]; omega) ?_
        rw [length_i32sBytes]
        refine Makes.done ⟨?_, rfl, ?_, by rw [hhead', hhead3, hhead2, hhead1, hhead0]⟩
          fun B hheld _ hB3 hB2 hB1 hB0 => ⟨hB0, hB1, hB2, hB3, fun _ => hheld⟩
        · rw [NvmBox.indexSize]
          simp only [Nat.add_assoc]
        · rw [hq', hq3, hq2, hq1, hq0, NvmBox.queued, if_neg hempty]
          simp only [List.append_assoc]

theorem makes_nvmWriteBoxRecord (minCorner maxCorner : Vec3) (triCount : Int32) {q : NvmOffsetQueue} {v : Int32}
    {rest : List Int32} (hq : q.items.drop q.head = v :: rest) (offset0 offset1 offset2 offset3 : Int32) {pos : Nat}
    (hfit : pos + 64 ≤ fileRoom) :
    Makes nvmSlots (nvmWriteBoxRecord minCorner maxCorner triCount q offset0 offset1 offset2 offset3)
      ⟨pos, be, long⟩ live
      (fun q' st live' => st = ⟨pos + 64, be, long⟩ ∧ live' = live ∧ q'.items.drop q'.head = rest) fun _ _ B =>
        Holds B pos (nvmBoxBytes be minCorner maxCorner triCount v offset0 offset1 offset2 offset3) := by
  have hpop : q.items[q.head]? = some v := by
    rw [← Nat.add_zero q.head, ← List.getElem?_drop, hq]
    rfl
  have hrest : q.items.drop (q.head + 1) = rest := by
    rw [← List.drop_drop, hq]
    rfl
  refine Makes.piece (delivers_vec3 _) (by rw [length_vec3Bytes]; omega) (Makes.i32 (by rw [length_vec3Bytes]; omega) ?_)
  refine Makes.piece (delivers_vec3 _) (by simp only [length_vec3Bytes]; omega) ?_
  simp only [length_vec3Bytes]
  rw [nvmQueuePop, hpop]
  refine Makes.i32 (by omega) (Makes.i32 (by omega) (Makes.i32 (by omega) (Makes.i32 (by omega) (Makes.i32 (by omega) ?_))))
  refine Makes.i32 (by omega) (Makes.i32 (by omega) (Makes.i32 (by omega) (Makes.i32 (by omega) ?_)))
  refine Makes.done ⟨rfl, rfl, hrest⟩ fun B h9 h8 h7 h6 h5 h4 h3 h2 h1 hmax hcount hmin => ?_
  simp only [nvmBoxBytes, i32sBytes, List.flatMap_cons, List.flatMap_nil, holds_append, length_vec3Bytes, length_wordBytes]
  exact ⟨hmin, hcount, hmax, h1, h2, h3, h4, h5, h6, h7, h8, h9, holds_nil.2 (by simpa only [length_wordBytes] using h9.le)⟩

/-- The second recursion, which takes from the queue what the first has put there. -/
theorem makes_nvmWriteBox (b : NvmBox) :
    ∀ (q : NvmOffsetQueue) (pos ipos : Nat) (rest : List Int32) (live : Set (NvmSlot × Option Nat)), 0 < pos →
      pos + b.count * 64 ≤ INT32_MAX → ipos + b.indexSize ≤ INT32_MAX → q.items.drop q.head = b.queued ipos ++ rest →
      Makes nvmSlots (nvmWriteBox b q) ⟨pos, be, long⟩ live
        (fun r st live' => st = ⟨pos + b.count * 64, be, long⟩ ∧ live' = live ∧ r.1.items.drop r.1.head = rest)
        fun r _ B => b.IndicesAt be B ipos → b.At be B r.2 := by
  induction b with
  | null => exact fun q pos ipos rest live _ _ _ hq => Makes.done ⟨rfl, rfl, hq⟩ fun _ _ => rfl
  | box minCorner maxCorner triangleIndices child0 child1 child2 child3 ih0 ih1 ih2 ih3 =>
      intro q pos ipos rest live hpos hfit hindex hq
      have hroom : INT32_MAX ≤ fileRoom := by decide
      rw [NvmBox.count] at hfit
      rw [NvmBox.indexSize] at hindex
      simp only [NvmBox.queued, List.append_assoc] at hq
      refine (ih0 q pos ipos _ live hpos (by omega) (by omega) hq).seq fun r0 st live' h0 => ?_
      obtain ⟨rfl, rfl, hq0⟩ := h0
      refine (ih1 r0.1 _ _ _ _ (by omega) (by omega) (by omega) hq0).seq fun r1 st live' h1 => ?_
      obtain ⟨rfl, rfl, hq1⟩ := h1
      refine (ih2 r1.1 _ _ _ _ (by omega) (by omega) (by omega) hq1).seq fun r2 st live' h2 => ?_
      obtain ⟨rfl, rfl, hq2⟩ := h2
      refine (ih3 r2.1 _ _ _ _ (by omega) (by omega) (by omega) hq2).seq fun r3 st live' h3 => ?_
      obtain ⟨rfl, rfl, hq3⟩ := h3
      refine Makes.position (Makes.check (by omega) (Makes.check (by omega) ?_))
      refine (makes_nvmWriteBoxRecord minCorner maxCorner _ hq3 _ _ _ _ (by omega)).seq fun q' st live' h => ?_
      obtain ⟨rfl, rfl, hq'⟩ := h
      refine Makes.done ⟨?_, rfl, hq'⟩ fun B hrec hB3 hB2 hB1 hB0 hindices => ?_
      · rw [NvmBox.count]
        congr 1
        omega
      · obtain ⟨hi0, hi1, hi2, hi3, htris⟩ := hindices
        refine ⟨_, _, _, _, _, _, by omega, by omega, rfl, by omega, hrec, fun hne => ?_, hB0 hi0, hB1 hi1, hB2 hi2,
          hB3 hi3⟩
        have hlen : triangleIndices.length ≠ 0 := fun h => hne (List.length_eq_zero_iff.1 h)
        rw [if_neg hlen]
        exact ⟨_, by omega, rfl, htris hne⟩

theorem delivers_nvmWriteTriangle (t : NvmTriangle) :
    Delivers nvmSlots be long (nvmWriteTriangle t) (nvmTriangleBytes be t) := by
  have hlast : Delivers nvmSlots be long (writeI32 t.packed) (wordBytes be 4 t.packed.toUInt32.toNat) := delivers_i32 _
  have h := (delivers_i32 t.vertexIndex1).then ((delivers_i32 t.vertexIndex2).then ((delivers_i32 t.vertexIndex3).then
    ((delivers_i32 t.edgeIndex1).then ((delivers_i32 t.edgeIndex2).then ((delivers_i32 t.edgeIndex3).then hlast)))))
  simpa [nvmWriteTriangle, nvmTriangleBytes, i32sBytes] using h

theorem delivers_nvmWriteEntity (e : NvmEntity) (offset : Int32) :
    Delivers nvmSlots be long (nvmWriteEntity e offset) (nvmEntityBytes be e offset) := by
  have hlast : Delivers nvmSlots be long (writeI32 0) (wordBytes be 4 (0 : Int32).toUInt32.toNat) := delivers_i32 _
  have h := (delivers_i32 e.entityId).then ((delivers_i32 offset).then
    ((delivers_i32 (Int32.ofNat e.triangleIndices.length)).then hlast))
  simpa [nvmWriteEntity, nvmEntityBytes, i32sBytes] using h

/-- What the file of a navmesh has. -/
structure NvmImage (n : Nvm) (rootBoxOffset : Int32) (entityOffsets : List Int32) (entityPos : Nat) (B : List UInt8) :
    Prop where
  header : Holds B 0 (i32sBytes n.bigEndian [1, Int32.ofNat n.vertices.length, 0x80, Int32.ofNat n.triangles.length,
    Int32.ofNat (0x80 + n.vertices.length * 12), rootBoxOffset, 0, Int32.ofNat n.entities.length,
    Int32.ofNat entityPos])
  zeros : Holds B 36 ((List.replicate 23 (0 : Int32)).flatMap fun v => wordBytes n.bigEndian 4 v.toUInt32.toNat)
  vertices : Holds B 0x80 (n.vertices.flatMap (vec3Bytes n.bigEndian))
  triangles : Holds B (0x80 + n.vertices.length * 12) (n.triangles.flatMap (nvmTriangleBytes n.bigEndian))
  rootBox : n.rootBox.At n.bigEndian B rootBoxOffset
  entityPos_le : entityPos ≤ INT32_MAX
  indices : List.Forall₂ (fun e offset => I32sAt n.bigEndian B e.triangleIndices offset) n.entities entityOffsets
  entities : Holds B entityPos ((n.entities.zip entityOffsets).flatMap fun e => nvmEntityBytes n.bigEndian e.1 e.2)

/-- The triangle indices of the entities, for which no array is made if there are none. -/
theorem makes_nvmEntityIndices (l : List NvmEntity) {pos : Nat} {live : Set (NvmSlot × Option Nat)}
    (hfit : pos + (l.map fun e => e.triangleIndices.length * 4).sum ≤ INT32_MAX) :
    Makes nvmSlots (given (0 < l.length) [] do
        let _ ← onHeap Heap.alloc
        noteEach (fun e => noteI32s e.triangleIndices) l) ⟨pos, be, long⟩ live
      (fun offsets st live' => st = ⟨pos + (l.map fun e => e.triangleIndices.length * 4).sum, be, long⟩ ∧
        live' = live ∧ offsets.length = l.length)
      fun offsets _ B => List.Forall₂ (fun e offset => I32sAt be B e.triangleIndices offset) l offsets := by
  cases l with
  | nil => exact Makes.done ⟨rfl, rfl, rfl⟩ fun B => List.Forall₂.nil
  | cons e l =>
      refine Makes.alloc fun _ => makes_noteEach (e :: l) (fun a _ pos live h => ?_) pos live hfit
      exact makes_noteI32s a.triangleIndices live h

/-- **A navmesh below the limit is written**, and its image is in the file. -/
theorem makes_nvmWrite (n : Nvm) (hsize : n.imageSize < 2 ^ 31) :
    Makes nvmSlots (nvmWrite n) ⟨0, n.bigEndian, false⟩ ∅
      (fun _ st live => st = ⟨n.imageSize, n.bigEndian, false⟩ ∧ live = ∅)
      fun _ _ B => ∃ rootBoxOffset entityOffsets entityPos, NvmImage n rootBoxOffset entityOffsets entityPos B := by
  have hroom : INT32_MAX ≤ fileRoom := by decide
  have hmax : INT32_MAX = 2 ^ 31 - 1 := rfl
  unfold Nvm.imageSize at hsize
  refine Makes.i32 (by decide) (Makes.i32 (by decide) ?_)
  refine Makes.reserveI32 (.vertexOffset, none) rfl rfl (by simp) (by decide) (Makes.i32 (by decide) ?_)
  refine Makes.reserveI32 (.triangleOffset, none) rfl rfl (by simp) (by decide) ?_
  refine Makes.reserveI32 (.rootBoxOffset, none) rfl rfl (by simp) (by decide) (Makes.i32 (by decide) (Makes.i32 (by decide) ?_))
  refine Makes.reserveI32 (.entityOffset, none) rfl rfl (by simp) (by decide) ?_
  have hzeros : ((List.replicate 23 (0 : Int32)).flatMap fun v => wordBytes n.bigEndian 4 v.toUInt32.toNat).length = 92 :=
    length_i32sBytes n.bigEndian (List.replicate 23 0)
  refine Makes.piece (delivers_each _ fun v _ => delivers_i32 v) (by rw [hzeros]; decide) ?_
  rw [hzeros]
  refine Makes.position (Makes.check (by decide) (Makes.fillI32 (.vertexOffset, none) rfl (by simp) ?_))
  have hvertices : (n.vertices.flatMap (vec3Bytes n.bigEndian)).length = n.vertices.length * 12 :=
    length_flatMap_const _ fun _ _ => length_vec3Bytes ..
  refine Makes.piece (delivers_each _ fun v _ => delivers_vec3 v) (by rw [hvertices]; omega) ?_
  rw [hvertices]
  refine Makes.position (Makes.check (by omega) (Makes.fillI32 (.triangleOffset, none) rfl (by simp) ?_))
  have htriangles : (n.triangles.flatMap (nvmTriangleBytes n.bigEndian)).length = n.triangles.length * 28 :=
    length_flatMap_const _ fun _ _ => length_nvmTriangleBytes ..
  refine Makes.piece (delivers_each _ fun t _ => delivers_nvmWriteTriangle t) (by rw [htriangles]; omega) ?_
  rw [htriangles]
  refine (makes_nvmWriteBoxTriangleIndices n.rootBox _ _ _ (by omega)).seq fun queue st live h => ?_
  obtain ⟨rfl, rfl, hitems, hhead⟩ := h
  have hqueue : queue.items.drop queue.head = n.rootBox.queued (0 + 4 + 4 + 4 + 4 + 4 + 4 + 4 + 4 + 4 + 92
      + n.vertices.length * 12 + n.triangles.length * 28) ++ [] := by
    rw [hhead, hitems, List.append_nil]
    rfl
  refine (makes_nvmWriteBox n.rootBox queue _ _ [] _ (by omega) (by omega) (by omega) hqueue).seq fun r st live h => ?_
  obtain ⟨rfl, rfl, -⟩ := h
  refine Makes.fillI32 (.rootBoxOffset, none) rfl (by simp) ?_
  refine (makes_nvmEntityIndices n.entities (by omega)).seq fun entityOffsets st live h => ?_
  obtain ⟨rfl, rfl, hlen⟩ := h
  refine Makes.position (Makes.check (by omega) (Makes.fillI32 (.entityOffset, none) rfl (by simp) (Makes.last ?_)))
  have hrecords : ((n.entities.zip entityOffsets).flatMap fun e => nvmEntityBytes n.bigEndian e.1 e.2).length
      = n.entities.length * 16 := by
    rw [length_flatMap_const _ fun _ _ => length_nvmEntityBytes .., List.length_zip, hlen, Nat.min_self]
  refine Makes.piece (delivers_each _ fun e _ => delivers_nvmWriteEntity e.1 e.2) (by rw [hrecords]; omega) ?_
  rw [hrecords]
  refine Makes.done ⟨?_, ?_⟩ fun B entities entityOffset indices rootBoxOffset rootBox hindices triangles triangleOffset
    vertices vertexOffset zeros entityCount zero triangleCount vertexCount magic => ?_
  · rfl
  · refine Set.eq_empty_of_forall_notMem fun s hs => ?_
    simp only [Set.mem_sdiff, Set.mem_insert_iff, Set.mem_singleton_iff, Set.mem_empty_iff_false, or_false] at hs
    tauto
  · have hend := entityOffset.le
    rw [length_wordBytes] at hend
    refine ⟨r.2, entityOffsets, _, ?_, zeros, vertices, triangles, rootBox hindices, by omega, indices, entities⟩
    simp only [i32sBytes, List.flatMap_cons, List.flatMap_nil, holds_append, length_wordBytes]
    exact ⟨magic, vertexCount, vertexOffset, triangleCount, triangleOffset, rootBoxOffset, zero, entityCount, entityOffset,
      holds_nil.2 hend⟩

end Writing

/-! ## The packed word of a triangle -/

/-- The obstacle count has 14 bits and the flags have 16. -/
structure NvmTriangle.Fits (t : NvmTriangle) : Prop where
  obstacles : 0 ≤ t.obstacleCount.toInt ∧ t.obstacleCount.toInt < 2 ^ 14
  flags : t.flags.toNat < 2 ^ 16

section Packed

variable {o f : BitVec 32} {i : Nat}

theorem getLsbD_eq_false {k : Nat} (ho : o.toNat < 2 ^ k) (hi : k ≤ i) : o.getLsbD i = false :=
  Nat.testBit_lt_two_pow (ho.trans_le (Nat.pow_le_pow_right (by decide) hi))

theorem getLsbD_mask {k : Nat} (hk : k ≤ 32) : (BitVec.ofNat 32 (2 ^ k - 1)).getLsbD i = decide (i < k) := by
  rw [BitVec.getLsbD_ofNat, Nat.testBit_two_pow_sub_one]
  by_cases h : i < k
  · have hi : i < 32 := by omega
    simp [h, hi]
  · simp [h]

/-- The bits of the packed word, from the lowest: two zeros, the obstacle count, the flags. -/
theorem getLsbD_packed (ho : o.toNat < 2 ^ 14) (hi : i < 32) :
    (((o &&& 0x3FFF#32) <<< 2) ||| (f <<< 16)).getLsbD i
      = if i < 16 then decide (2 ≤ i) && o.getLsbD (i - 2) else f.getLsbD (i - 16) := by
  have hmask : ∀ j, (0x3FFF#32).getLsbD j = decide (j < 14) := fun j => getLsbD_mask (k := 14) (by decide)
  rw [BitVec.getLsbD_or, BitVec.getLsbD_shiftLeft, BitVec.getLsbD_shiftLeft, BitVec.getLsbD_and, hmask]
  by_cases h16 : i < 16
  · have h14 : i - 2 < 14 := by omega
    by_cases h2 : i < 2
    · simp [hi, h16, h2]
    · simp [hi, h16, h14, h2]
      omega
  · have hzero := getLsbD_eq_false ho (i := i - 2) (by omega)
    simp [hi, h16, hzero]

theorem packed_low (ho : o.toNat < 2 ^ 14) : (((o &&& 0x3FFF#32) <<< 2) ||| (f <<< 16)) &&& 3#32 = 0#32 := by
  apply BitVec.eq_of_getLsbD_eq
  intro i hi
  have hmask : (3#32).getLsbD i = decide (i < 2) := getLsbD_mask (k := 2) (by decide)
  rw [BitVec.getLsbD_and, getLsbD_packed ho hi, hmask]
  by_cases h2 : i < 2
  · have h16 : i < 16 := by omega
    have hle : ¬ 2 ≤ i := by omega
    simp [h16, hle]
  · simp [h2]

theorem packed_obstacles (ho : o.toNat < 2 ^ 14) :
    ((((o &&& 0x3FFF#32) <<< 2) ||| (f <<< 16)).sshiftRight 2) &&& 0x3FFF#32 = o := by
  apply BitVec.eq_of_getLsbD_eq
  intro i hi
  have hmask : (0x3FFF#32).getLsbD i = decide (i < 14) := getLsbD_mask (k := 14) (by decide)
  rw [BitVec.getLsbD_and, hmask, BitVec.getLsbD_sshiftRight]
  by_cases h14 : i < 14
  · have hshift : 2 + i < 32 := by omega
    have h32 : ¬ 32 ≤ i := by omega
    have h16 : 2 + i < 16 := by omega
    rw [if_pos hshift, getLsbD_packed ho hshift, if_pos h16, Nat.add_sub_cancel_left]
    simp [h14, h32]
  · rw [getLsbD_eq_false ho (i := i) (by omega)]
    simp [h14]

theorem packed_flags (ho : o.toNat < 2 ^ 14) (hf : f.toNat < 2 ^ 16) :
    (((o &&& 0x3FFF#32) <<< 2) ||| (f <<< 16)) >>> 16 = f := by
  apply BitVec.eq_of_getLsbD_eq
  intro i hi
  rw [BitVec.getLsbD_ushiftRight]
  by_cases h16 : i < 16
  · rw [getLsbD_packed ho (by omega), if_neg (by omega), Nat.add_sub_cancel_left]
  · rw [getLsbD_eq_false hf (by omega)]
    exact BitVec.getLsbD_of_ge _ _ (by omega)

end Packed

section

variable {t : NvmTriangle} (ht : t.Fits)

include ht

theorem NvmTriangle.Fits.toNat_lt : t.obstacleCount.toBitVec.toNat < 2 ^ 14 := by
  have h := ht.obstacles
  rw [← Int32.toInt_toBitVec, BitVec.toInt_eq_toNat_cond] at h
  split at h <;> omega

theorem NvmTriangle.Fits.packed_low : t.packed &&& 3 = 0 := by
  apply Int32.toBitVec_inj.1
  simpa [NvmTriangle.packed] using SoulsFormats.packed_low (f := t.flags.toBitVec) ht.toNat_lt

theorem NvmTriangle.Fits.packed_obstacles : (t.packed >>> 2) &&& 0x3FFF = t.obstacleCount := by
  apply Int32.toBitVec_inj.1
  simpa [NvmTriangle.packed] using SoulsFormats.packed_obstacles (f := t.flags.toBitVec) ht.toNat_lt

theorem NvmTriangle.Fits.packed_flags : t.packed.toUInt32 >>> 16 = t.flags := by
  apply UInt32.toBitVec_inj.1
  simpa [NvmTriangle.packed] using SoulsFormats.packed_flags ht.toNat_lt ht.flags

end

/-! ## Reading -/

section Reading

open BinaryReader

variable {be long : Bool} {B : List UInt8} {steps : List Nat} {flexible : Bool} {pos : Nat}

theorem reads_nvmReadTriangle {t : NvmTriangle} (ht : t.Fits) (h : Holds B pos (nvmTriangleBytes be t)) :
    Reads nvmReadTriangle ⟨B, pos, be, long, steps, flexible⟩ t ⟨B, pos + 28, be, long, steps, flexible⟩ := by
  simp only [nvmTriangleBytes, i32sBytes, List.flatMap_cons, holds_append, length_wordBytes] at h
  obtain ⟨hv1, hv2, hv3, he1, he2, he3, hpacked, -⟩ := h
  refine Reads.i32 hv1 (Reads.i32 hv2 (Reads.i32 hv3 (Reads.i32 he1 (Reads.i32 he2 (Reads.i32 he3 ?_)))))
  refine Reads.i32 hpacked (Reads.check ht.packed_low ?_)
  rw [ht.packed_obstacles, ht.packed_flags]
  exact Reads.pure _ _

theorem reads_nvmReadEntity {e : NvmEntity} {offset : Int32} (hat : I32sAt be B e.triangleIndices offset)
    (hB : B.length < 2 ^ 31) (h : Holds B pos (nvmEntityBytes be e offset)) :
    Reads nvmReadEntity ⟨B, pos, be, long, steps, flexible⟩ e ⟨B, pos + 16, be, long, steps, flexible⟩ := by
  have hle := h.le
  have hlen := hat.length_le hB
  rw [length_nvmEntityBytes] at hle
  simp only [nvmEntityBytes, i32sBytes, List.flatMap_cons, holds_append, length_wordBytes] at h
  obtain ⟨hid, hoffset, hcount, hzero, -⟩ := h
  refine Reads.i32 hid (Reads.i32 hoffset (Reads.i32 hcount (Reads.assertI32 hzero List.mem_cons_self (Reads.check ?_ ?_))))
  · rw [int32_toInt_ofNat hlen]
    omega
  · exact Reads.i32sAt (fun _ => hat) hB hlen (by omega) (Reads.pure _ _)

/-- A box is read where it stands if there is fuel for its tree. -/
theorem reads_nvmReadBoxAt (hB : B.length < 2 ^ 31) (b : NvmBox) :
    ∀ (fuel : Nat) (offset : Int32) (pos : Nat) (steps : List Nat), b.count ≤ fuel → b.At be B offset → pos ≤ B.length →
      Reads (nvmReadBoxAt (nvmReadBox fuel) offset) ⟨B, pos, be, long, steps, flexible⟩ b
        ⟨B, pos, be, long, steps, flexible⟩ := by
  induction b with
  | null =>
      intro fuel offset pos steps _ hat _
      have hzero : offset = 0 := hat
      rw [nvmReadBoxAt, if_pos hzero]
      exact Reads.pure _ _
  | box minCorner maxCorner triangleIndices child0 child1 child2 child3 ih0 ih1 ih2 ih3 =>
      intro fuel offset pos steps hfuel hat hpos
      obtain ⟨p, triOffset, offset0, offset1, offset2, offset3, hp, hpmax, rfl, hlen, hrec, htris, h0, h1, h2, h3⟩ := hat
      have htoInt : (Int32.ofNat p).toInt = p := int32_toInt_ofNat hpmax
      have hne : Int32.ofNat p ≠ 0 := by
        intro h
        rw [h] at htoInt
        have hzero : (0 : Int32).toInt = 0 := rfl
        omega
      rw [NvmBox.count] at hfuel
      obtain ⟨fuel, rfl⟩ : ∃ k, fuel = k + 1 := ⟨fuel - 1, by omega⟩
      have hle := hrec.le
      rw [length_nvmBoxBytes] at hle
      simp only [nvmBoxBytes, i32sBytes, List.flatMap_cons, holds_append, length_vec3Bytes, length_wordBytes] at hrec
      obtain ⟨hmin, hcount, hmax, htri, ho0, ho1, ho2, ho3, hz0, hz1, hz2, hz3, -⟩ := hrec
      have hbody : Reads (nvmReadBox (fuel + 1)) ⟨B, p, be, long, pos :: steps, flexible⟩
          (.box minCorner maxCorner triangleIndices child0 child1 child2 child3)
          ⟨B, p + 64, be, long, pos :: steps, flexible⟩ := by
        refine reads_alloc _ fun _ => Reads.vec3 hmin (Reads.i32 hcount (Reads.vec3 hmax (Reads.i32 htri ?_)))
        refine Reads.i32 ho0 (Reads.i32 ho1 (Reads.i32 ho2 (Reads.i32 ho3 ?_)))
        refine Reads.assertI32 hz0 List.mem_cons_self (Reads.assertI32 hz1 List.mem_cons_self ?_)
        refine Reads.assertI32 hz2 List.mem_cons_self (Reads.assertI32 hz3 List.mem_cons_self (Reads.check ?_ ?_))
        · rw [int32_toInt_ofNat hlen]
          omega
        · refine Reads.i32sAt htris hB hlen (by omega) ?_
          refine (ih0 fuel offset0 _ _ (by omega) h0 (by omega)).bind ?_
          refine (ih1 fuel offset1 _ _ (by omega) h1 (by omega)).bind ?_
          refine (ih2 fuel offset2 _ _ (by omega) h2 (by omega)).bind ?_
          refine (ih3 fuel offset3 _ _ (by omega) h3 (by omega)).bind ?_
          exact Reads.pure _ _
      rw [nvmReadBoxAt, if_neg hne]
      exact Reads.last (Reads.steppedIn htoInt (by omega) hpos hbody (Reads.pure _ _))

/-- The offset of a box is not that of a null pointer. -/
theorem NvmBox.At.toInt_pos {b : NvmBox} (hb : b ≠ .null) {offset : Int32} (h : b.At be B offset) :
    0 < offset.toInt := by
  cases b with
  | null => exact absurd rfl hb
  | box minCorner maxCorner triangleIndices child0 child1 child2 child3 =>
      obtain ⟨p, _, _, _, _, _, hp, hpmax, rfl, -⟩ := h
      rw [int32_toInt_ofNat hpmax]
      omega

variable {n : Nvm} {rootBoxOffset : Int32} {entityOffsets : List Int32} {entityPos : Nat}

theorem reads_nvmRead (himage : NvmImage n rootBoxOffset entityOffsets entityPos B) (hroot : n.rootBox ≠ .null)
    (htriangles : ∀ t ∈ n.triangles, t.Fits) (hlen : B.length = n.imageSize) (hsize : n.imageSize < 2 ^ 31) {fuel : Nat}
    (hfuel : n.rootBox.count ≤ fuel) (flexible : Bool) :
    Reads (nvmRead fuel) ⟨B, 0, false, false, [], flexible⟩ n
      ⟨B, 0x80 + n.vertices.length * 12 + n.triangles.length * 28, n.bigEndian, false, [], flexible⟩ := by
  have hmax : INT32_MAX = 2 ^ 31 - 1 := rfl
  have hB : B.length < 2 ^ 31 := by omega
  have hbound := hsize
  unfold Nvm.imageSize at hbound hlen
  have hheader := himage.header
  simp only [i32sBytes, List.flatMap_cons, holds_append, length_wordBytes] at hheader
  obtain ⟨hmagic, hvertexCount, hvertexOffset, htriangleCount, htriangleOffset, hrootOffset, hzero, hentityCount,
    hentityOffset, -⟩ := hheader
  -- the first word is read in little-endian order, whatever the order of the file
  have hword : ∀ be : Bool, wordBytes false 4 (if be then (0x1000000 : Int32) else 1).toUInt32.toNat
      = wordBytes be 4 (1 : Int32).toUInt32.toNat := by decide
  rw [← hword] at hmagic
  have horder : ∀ be : Bool, decide ((if be then (0x1000000 : Int32) else 1) ≠ 1) = be := by decide
  have hoption : ∀ be : Bool, (if be then (0x1000000 : Int32) else 1) ∈ [(1 : Int32), 0x1000000] := by decide
  have hvertexInt : (Int32.ofNat n.vertices.length).toInt = n.vertices.length := int32_toInt_ofNat (by omega)
  have htriangleInt : (Int32.ofNat n.triangles.length).toInt = n.triangles.length := int32_toInt_ofNat (by omega)
  have hentityInt : (Int32.ofNat n.entities.length).toInt = n.entities.length := int32_toInt_ofNat (by omega)
  have hsum : (0x80 : Int32) + Int32.ofNat n.vertices.length * 0xC = Int32.ofNat (0x80 + n.vertices.length * 12) := by
    rw [Int32.ofNat_add, Int32.ofNat_mul]
    rfl
  have hrootPos := NvmBox.At.toInt_pos hroot himage.rootBox
  have hentityPos := int32_toInt_ofNat himage.entityPos_le
  have hvertexEnd := himage.vertices.le
  have htriangleEnd := himage.triangles.le
  rw [length_flatMap_const _ fun _ _ => length_vec3Bytes ..] at hvertexEnd
  rw [length_flatMap_const _ fun _ _ => length_nvmTriangleBytes ..] at htriangleEnd
  refine reads_alloc _ fun _ => Reads.assertI32 hmagic (hoption _) (Reads.setBig ?_)
  rw [horder]
  refine Reads.i32 hvertexCount (Reads.assertI32 hvertexOffset List.mem_cons_self (Reads.check (by omega) ?_))
  refine Reads.i32 htriangleCount (Reads.check (by omega) (Reads.assertI32 htriangleOffset (List.mem_singleton.2 hsum.symm) ?_))
  refine Reads.check (by omega) (Reads.i32 hrootOffset (Reads.assertI32 hzero List.mem_cons_self (Reads.i32 hentityCount ?_)))
  refine Reads.i32 hentityOffset (Reads.check (by omega) ?_)
  simp only [hvertexInt, htriangleInt, hentityInt, hentityPos, Int.toNat_natCast]
  have hzeros : Reads (readEach (assertI32 [0]) 23) ⟨B, 36, n.bigEndian, false, [], flexible⟩ (List.replicate 23 0)
      ⟨B, 0x80, n.bigEndian, false, [], flexible⟩ := by
    have h := parses_readEach_self (m := assertI32 [0]) (c := ⟨B, 36, n.bigEndian, false, [], flexible⟩)
      (List.replicate 23 (0 : Int32)) (fun v hv c' hbe _ => by
        have hv0 : v ∈ [(0 : Int32)] := by simpa using List.eq_of_mem_replicate hv
        have hparse := parses_assert (parses_i32 c' v) hv0
        rwa [hbe] at hparse) himage.zeros
    have hlen92 := length_i32sBytes n.bigEndian (List.replicate 23 (0 : Int32))
    rw [i32sBytes] at hlen92
    rw [Cursor.advance, hlen92] at h
    exact h
  refine hzeros.bind ?_
  refine (reads_appended_table 12 n.vertices (fun i v hv room cap hroom => ?_) 0 0).bind ?_
  · refine Reads.vec3 (element_at (fun _ => length_vec3Bytes ..) himage.vertices i v hv) ?_
    exact (hroom _).bind (Reads.pure _ _)
  refine (reads_appended_table 28 n.triangles (fun i t ht room cap hroom => ?_) 0 0).bind ?_
  · refine (hroom _).bind ((reads_nvmReadTriangle (htriangles t (List.mem_of_getElem? ht)) ?_).bind (Reads.pure _ _))
    exact element_at (fun _ => length_nvmTriangleBytes ..) himage.triangles i t ht
  have hrootAt : Reads (nvmReadBoxAt (nvmReadBox fuel) rootBoxOffset)
      ⟨B, 0x80 + n.vertices.length * 12 + n.triangles.length * 28, n.bigEndian, false, [], flexible⟩ n.rootBox
      ⟨B, 0x80 + n.vertices.length * 12 + n.triangles.length * 28, n.bigEndian, false, [], flexible⟩ :=
    reads_nvmReadBoxAt hB n.rootBox fuel rootBoxOffset _ [] hfuel himage.rootBox htriangleEnd
  rw [nvmReadBoxAt, if_neg (by rintro rfl; exact absurd hrootPos (by decide))] at hrootAt
  refine hrootAt.bind ?_
  refine Reads.steppedIn rfl ((Nat.le_add_right _ _).trans himage.entities.le) htriangleEnd
    (reads_appended_table 16 n.entities (fun i e he room cap hroom => ?_) 0 0) (Reads.pure _ _)
  obtain ⟨offset, hat, hrec⟩ := record_at himage.indices (length_nvmEntityBytes n.bigEndian) himage.entities i e he
  exact (hroom _).bind ((reads_nvmReadEntity hat hB hrec).bind (Reads.pure _ _))

end Reading

/-! ## What comes back -/

/-- **A navmesh whose root is a box, whose triangles fit and whose image is below 2^31 bytes is written and comes
    back as it was.** -/
theorem nvm_round_trips (n : Nvm) (hroot : n.rootBox ≠ .null) (htriangles : ∀ t ∈ n.triangles, t.Fits)
    (hsize : n.imageSize < 2 ^ 31) (heap heap' : Heap) (flexible : Bool) (hcalm : heap.Calm) (hcalm' : heap'.Calm) :
    ∃ out, (nvmWriteToMemory n heap).1 = .ok out ∧ out.length = n.imageSize ∧
      (nvmReadFromMemory flexible out heap').1 = .ok n := by
  have hmax : INT32_MAX = 2 ^ 31 - 1 := rfl
  have hbound := hsize
  unfold Nvm.imageSize at hbound
  obtain ⟨out, st, hwrite, ⟨rfl, -⟩, ⟨rootBoxOffset, entityOffsets, entityPos, himage⟩, hlen⟩ :=
    (makes_nvmWrite n hsize).toMemory (fun _ _ h => h.2) hcalm
  have himageSize : out.length = n.imageSize := hlen
  have hfuel : n.rootBox.count ≤ out.length + 2 := by
    rw [himageSize, Nvm.imageSize]
    omega
  obtain ⟨_, hread, -⟩ := BinaryReader.onMemory_ok
    (reads_nvmRead himage hroot htriangles himageSize hsize hfuel flexible) hcalm'
  refine ⟨out, ?_, himageSize, congrArg Prod.fst hread⟩
  unfold nvmWriteToMemory
  rw [if_neg hroot, if_neg (by omega)]
  exact hwrite

/-- A root with two children, of which one has a child itself, in a big-endian file. -/
def nvmSample : Nvm :=
  let leaf : NvmBox := .box ⟨0, 0, 0⟩ ⟨1, 1, 1⟩ [] .null .null .null .null
  let inner : NvmBox := .box ⟨0, 0, 0⟩ ⟨2, 2, 2⟩ [0, 1] .null leaf .null .null
  { bigEndian := true
    vertices := [⟨0, 0, 0⟩, ⟨1, 0, 0⟩, ⟨0, 1, 0⟩]
    triangles := [⟨0, 1, 2, -1, -1, -1, 5, 0x8001⟩]
    rootBox := .box ⟨0, 0, 0⟩ ⟨4, 4, 4⟩ [7] leaf .null .null inner
    entities := [⟨1000, [0]⟩, ⟨2000, []⟩] }

theorem nvm_sample_round_trips : ∃ out, (nvmWriteToMemory nvmSample []).1 = .ok out ∧
    out.length = nvmSample.imageSize ∧ (nvmReadFromMemory false out []).1 = .ok nvmSample := by
  refine nvm_round_trips nvmSample (by decide) ?_ (by decide) [] [] false Heap.calm_nil Heap.calm_nil
  intro t ht
  rw [List.mem_singleton.1 ht]
  exact ⟨by decide, by decide⟩

end SoulsFormats
