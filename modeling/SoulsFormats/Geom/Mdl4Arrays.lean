import SoulsFormats.Geom.Mdl4Materials

set_option autoImplicit false

/-! # Absent arrays of an MDL4 model

The accesses of `populate` and `sf_mdl4_destroy` in `mdl4.c` are to elements that are there, unless the reader stops
between a count and its array: in the header after a positive number of materials, bones or meshes, or where one of
these arrays or the parameters of a material are refused. -/

namespace SoulsFormats

open Bytes Fallible BinaryReader Built Construct Mdl4Object

/-! ## The header -/

/-- What `read_header` reads before the counts. -/
def mdl4ReadFront : ReadM Unit := do
  setBigEndian true
  assertAscii (cstr "MDL4")
  let version ← readU32
  check (mdl4VersionSupported version = true) .unsupportedVersion
  let _ ← readI32
  let _ ← readI32
  pure ()

theorem mirrors_mdl4BuildFront (b : Built BinaryReader Mdl4FileHeader) :
    Mirrors mdl4BuildFront mdl4ReadFront b fun _ _ _ => True := by
  unfold mdl4BuildFront mdl4ReadFront
  refine Mirrors.reading_bind fun _ b1 h1 => Mirrors.reading_bind fun _ b2 h2 => mirrors_storeField fun v b3 h3 => ?_
  refine Mirrors.state_bind ?_
  rw [show b3.object.version = v by rw [h3]]
  refine Mirrors.check_bind fun _ => mirrors_storeField fun v b4 h4 => ?_
  unfold storeField
  exact Mirrors.reading_bind fun _ _ _ => Mirrors.assign_pure trivial

/-- What `read_header` reads after the counts. -/
def mdl4ReadTail (h : Mdl4FileHeader) : ReadM Mdl4FileHeader := do
  let vertexBufferCount ← readI32
  let bboxMin ← readVec3
  let bboxMax ← readVec3
  let faceCount ← readI32
  let totalFaceCount ← readI32
  assertPattern 0x3C 0
  check (countValid h.dummyCount mdl4DummySize = true ∧ countValid h.materialCount mdl4MaterialSize = true ∧
    countValid h.boneCount mdl4NodeSize = true ∧ countValid h.meshCount mdl4MeshSize = true) .outOfRange
  pure ⟨⟨h.version, h.dataOffset, h.dataLength, vertexBufferCount, bboxMin, bboxMax, faceCount, totalFaceCount⟩,
    h.dummyCount, h.materialCount, h.boneCount, h.meshCount⟩

theorem mirrors_mdl4BuildTail (b : Built BinaryReader Mdl4FileHeader) :
    Mirrors mdl4BuildTail (mdl4ReadTail b.object) b fun _ x o => o = x := by
  unfold mdl4BuildTail mdl4ReadTail
  refine mirrors_storeField fun vertexBufferCount b1 h1 => mirrors_storeField fun bboxMin b2 h2 => ?_
  refine mirrors_storeField fun bboxMax b3 h3 => mirrors_storeField fun faceCount b4 h4 => ?_
  refine mirrors_storeField fun totalFaceCount b5 h5 => Mirrors.reading_bind fun _ b6 h6 => Mirrors.state_bind ?_
  have hobject : b6.object = ⟨⟨b.object.version, b.object.dataOffset, b.object.dataLength, vertexBufferCount, bboxMin, bboxMax,
      faceCount, totalFaceCount⟩, b.object.dummyCount, b.object.materialCount, b.object.boneCount, b.object.meshCount⟩ := by
    rw [h6, h5, h4, h3, h2, h1]
  rw [hobject]
  exact Mirrors.check_pure hobject

/-- Building the header reads what `mdl4ReadHeader` reads. -/
theorem mirrors_mdl4BuildHeader {b : Built BinaryReader Mdl4FileHeader} (hb : b.object = zeroMdl4Header) :
    Mirrors mdl4BuildHeader mdl4ReadHeader b fun _ x o => o = x := by
  unfold mdl4BuildHeader mdl4BuildFront
  simp only [bind_assoc]
  refine Mirrors.reading_bind fun _ b1 h1 => Mirrors.reading_bind fun _ b2 h2 => mirrors_storeField fun version b3 h3 => ?_
  refine Mirrors.state_bind ?_
  rw [show b3.object.version = version by rw [h3]]
  refine Mirrors.check_bind fun _ => mirrors_storeField fun dataOffset b4 h4 => mirrors_storeField fun dataLength b5 h5 => ?_
  have hfront : b5.object = ⟨⟨version, dataOffset, dataLength, 0, zeroVec3, zeroVec3, 0, 0⟩, 0, 0, 0, 0⟩ := by
    rw [h5, h4, h3, h2, h1, hb]
    rfl
  refine mirrors_storeField fun dummyCount b6 h6 => mirrors_storeField fun materialCount b7 h7 => ?_
  refine mirrors_storeField fun boneCount b8 h8 => mirrors_storeField fun meshCount b9 h9 => ?_
  have hobject : b9.object = ⟨⟨version, dataOffset, dataLength, 0, zeroVec3, zeroVec3, 0, 0⟩, dummyCount, materialCount,
      boneCount, meshCount⟩ := by
    rw [h9, h8, h7, h6, hfront]
  have htail := mirrors_mdl4BuildTail b9
  rw [hobject] at htail
  exact htail

theorem mdl4BuildHeader_log (b : Built BinaryReader Mdl4FileHeader) : (mdl4BuildHeader b).2.log = b.log := by
  have hstore {α : Type} (read : ReadM α) (set : α → Mdl4FileHeader → Mdl4FileHeader) :
      Keeps (fun b' => b'.log = b.log) (storeField read set) := storeField_keeps (P := fun _ l => l = b.log) fun _ _ _ h => h
  have hread {α : Type} (m : ReadM α) : Keeps (fun b' : Built BinaryReader Mdl4FileHeader => b'.log = b.log) (reading m) :=
    fun _ h => h
  have hfront : Keeps (fun b' => b'.log = b.log) mdl4BuildFront :=
    (hread _).bind fun _ => (hread _).bind fun _ => (hstore _ _).bind fun _ => Keeps.state.bind fun _ =>
      (Keeps.check _ _).bind fun _ => (hstore _ _).bind fun _ => hstore _ _
  have htail : Keeps (fun b' => b'.log = b.log) mdl4BuildTail :=
    (hstore _ _).bind fun _ => (hstore _ _).bind fun _ => (hstore _ _).bind fun _ => (hstore _ _).bind fun _ =>
      (hstore _ _).bind fun _ => (hread _).bind fun _ => Keeps.state.bind fun _ => Keeps.check _ _
  have hheader : Keeps (fun b' => b'.log = b.log) mdl4BuildHeader :=
    hfront.bind fun _ => (hstore _ _).bind fun _ => (hstore _ _).bind fun _ => (hstore _ _).bind fun _ =>
      (hstore _ _).bind fun _ => htail
  exact hheader b rfl

/-! ## The counts -/

/-- The counts that `sf_mdl4_destroy` trusts. -/
def Mdl4FileHeader.counts (h : Mdl4FileHeader) : Int32 × Int32 × Int32 := (h.materialCount, h.boneCount, h.meshCount)

/-- One of them is positive. -/
def Mdl4FileHeader.Stored (h : Mdl4FileHeader) : Prop :=
  0 < h.materialCount.toInt ∨ 0 < h.boneCount.toInt ∨ 0 < h.meshCount.toInt

theorem stored_iff {h : Mdl4FileHeader} {c : Int32 × Int32 × Int32} (hc : h.counts = c) :
    h.Stored ↔ 0 < c.1.toInt ∨ 0 < c.2.1.toInt ∨ 0 < c.2.2.toInt := by
  rw [← hc]
  rfl

section

variable (c : Int32 × Int32 × Int32)

theorem reading_keeps_counts {α : Type} (m : ReadM α) :
    Keeps (fun b : Built BinaryReader Mdl4FileHeader => b.object.counts = c) (reading m) := fun _ hb => hb

/-- A field that is not a count. -/
theorem storeField_keeps_counts {α : Type} {set : α → Mdl4FileHeader → Mdl4FileHeader}
    (hset : ∀ v h, (set v h).counts = h.counts) (read : ReadM α) :
    Keeps (fun b => b.object.counts = c) (storeField read set) :=
  storeField_keeps (P := fun h _ => h.counts = c) fun v h _ hc => (hset v h).trans hc

theorem mdl4BuildFront_keeps_counts : Keeps (fun b => b.object.counts = c) mdl4BuildFront := by
  refine (reading_keeps_counts c _).bind fun _ => (reading_keeps_counts c _).bind fun _ =>
    (storeField_keeps_counts c ?_ _).bind fun _ => Keeps.state.bind fun _ => (Keeps.check _ _).bind fun _ =>
      (storeField_keeps_counts c ?_ _).bind fun _ => storeField_keeps_counts c ?_ _
  all_goals exact fun _ _ => rfl

theorem mdl4BuildTail_keeps_counts : Keeps (fun b => b.object.counts = c) mdl4BuildTail := by
  refine (storeField_keeps_counts c ?_ _).bind fun _ => (storeField_keeps_counts c ?_ _).bind fun _ =>
    (storeField_keeps_counts c ?_ _).bind fun _ => (storeField_keeps_counts c ?_ _).bind fun _ =>
      (storeField_keeps_counts c ?_ _).bind fun _ => (reading_keeps_counts c _).bind fun _ =>
        Keeps.state.bind fun _ => Keeps.check _ _
  all_goals exact fun _ _ => rfl

end

/-- The numbers of materials, bones and meshes, as far as `n` of them. -/
def mdl4ReadCounts (n : Nat) : ReadM (List Int32) := do
  mdl4ReadFront
  let _ ← readI32
  readEach readI32 n

/-- One of the counts that can be read is positive. -/
def Mdl4CountStored (r : BinaryReader) : Prop :=
  ∃ n ≤ 3, ∃ cs r', mdl4ReadCounts n r = (.ok cs, r') ∧ ∃ c ∈ cs, 0 < c.toInt

theorem storeField_bind_ok {η α : Type} {read : ReadM α} {set : α → η → η} {r r' : BinaryReader} {v : α}
    (h : read r = (.ok v, r')) (k : Unit → ConstructM η Unit) (o : η) (log : List Access) :
    (storeField read set >>= k) ⟨r, o, log⟩ = k () ⟨r', set v o, log⟩ := by
  rw [storeField, bind_assoc, reading_bind_ok h, assign_bind_run]

theorem storeField_bind_error {η α : Type} {read : ReadM α} {set : α → η → η} {r r' : BinaryReader} {e : SfError}
    (h : read r = (.error e, r')) (k : Unit → ConstructM η Unit) (o : η) (log : List Access) :
    (storeField read set >>= k) ⟨r, o, log⟩ = (.error e, ⟨r', o, log⟩) := by
  rw [storeField, bind_assoc, reading_bind_error h]

/-- The counts that are read from a reader before the reading fails. -/
theorem exists_readEach_iff (r : BinaryReader) (n : Nat) :
    (∃ m ≤ n + 1, ∃ cs r', readEach readI32 m r = (.ok cs, r') ∧ ∃ c ∈ cs, 0 < c.toInt) ↔
      ∃ c r', readI32 r = (.ok c, r') ∧ (0 < c.toInt ∨
        ∃ m ≤ n, ∃ cs r'', readEach readI32 m r' = (.ok cs, r'') ∧ ∃ c ∈ cs, 0 < c.toInt) := by
  constructor
  · rintro ⟨m, hm, cs, r', hrun, c, hc, hpos⟩
    cases m with
    | zero =>
        cases hrun
        nomatch hc
    | succ m =>
        obtain ⟨c0, r1, hfirst, hrun⟩ := bind_eq_ok.1 hrun
        obtain ⟨cs1, r2, hrest, hpure⟩ := bind_eq_ok.1 hrun
        cases hpure
        refine ⟨c0, r1, hfirst, ?_⟩
        rcases List.mem_cons.1 hc with rfl | hc
        · exact .inl hpos
        · exact .inr ⟨m, Nat.le_of_succ_le_succ hm, cs1, _, hrest, c, hc, hpos⟩
  · rintro ⟨c, r1, hfirst, hpos | ⟨m, hm, cs, r2, hrest, c', hc', hpos⟩⟩
    · refine ⟨1, by omega, [c], r1, ?_, c, List.mem_singleton.2 rfl, hpos⟩
      exact bind_ok hfirst _
    · refine ⟨m + 1, by omega, c :: cs, r2, ?_, c', List.mem_cons_of_mem c hc', hpos⟩
      exact (bind_ok hfirst _).trans (bind_ok hrest _)

/-- However reading the header ends, the counts that it could read are stored. -/
theorem stored_mdl4BuildHeader_iff (r : BinaryReader) :
    (mdl4BuildHeader ⟨r, zeroMdl4Header, []⟩).2.object.Stored ↔ Mdl4CountStored r := by
  have hzero : (0 : Int32).toInt = 0 := rfl
  have hfront := mirrors_mdl4BuildFront ⟨r, zeroMdl4Header, []⟩
  have hkeeps := mdl4BuildFront_keeps_counts (0, 0, 0) ⟨r, zeroMdl4Header, []⟩ rfl
  rw [mdl4BuildHeader]
  rcases hrun : mdl4ReadFront r with ⟨e | ⟨⟩, r1⟩
  · obtain ⟨b1, hbuilt, -⟩ := hfront.2 e r1 hrun
    rw [hbuilt] at hkeeps
    rw [bind_error hbuilt, stored_iff hkeeps]
    refine iff_of_false (by simp) ?_
    rintro ⟨n, -, cs, r', hcs, -⟩
    rw [mdl4ReadCounts, bind_error hrun] at hcs
    cases hcs
  obtain ⟨⟨⟩, b1, hbuilt, rfl, -⟩ := hfront.1 () r1 hrun
  rw [hbuilt] at hkeeps
  obtain ⟨r1, h1, log⟩ := b1
  obtain ⟨hmaterial1, hbone1, hmesh1⟩ : h1.materialCount = 0 ∧ h1.boneCount = 0 ∧ h1.meshCount = 0 := by
    simpa only [Mdl4FileHeader.counts, Prod.mk.injEq] using hkeeps
  rw [bind_ok hbuilt]
  rcases hdummy : readI32 r1 with ⟨e | d, r2⟩
  · rw [storeField_bind_error hdummy, stored_iff hkeeps]
    refine iff_of_false (by simp) ?_
    rintro ⟨n, -, cs, r', hcs, -⟩
    rw [mdl4ReadCounts, bind_ok hrun, bind_error hdummy] at hcs
    cases hcs
  have hstored : Mdl4CountStored r ↔
      ∃ m ≤ 2 + 1, ∃ cs r', readEach readI32 m r2 = (.ok cs, r') ∧ ∃ c ∈ cs, 0 < c.toInt := by
    refine exists_congr fun n => and_congr_right fun _ => exists_congr fun cs => exists_congr fun r' =>
      and_congr_left fun _ => ?_
    rw [mdl4ReadCounts, bind_ok hrun, bind_ok hdummy]
  rw [hstored, storeField_bind_ok hdummy, exists_readEach_iff]
  rcases hmaterial : readI32 r2 with ⟨e | c, r3⟩
  · rw [storeField_bind_error hmaterial]
    refine (stored_iff (c := (0, 0, 0)) hkeeps).trans ?_
    simp
  rw [storeField_bind_ok hmaterial]
  simp only [exists_readEach_iff]
  rcases hbone : readI32 r3 with ⟨e | c', r4⟩
  · rw [storeField_bind_error hbone]
    have hc : Mdl4FileHeader.counts { h1 with dummyCount := d, materialCount := c } = (c, 0, 0) :=
      Prod.ext rfl (Prod.ext hbone1 hmesh1)
    refine (stored_iff hc).trans ?_
    simp [hbone]
  rw [storeField_bind_ok hbone]
  rcases hmesh : readI32 r4 with ⟨e | c'', r5⟩
  · rw [storeField_bind_error hmesh]
    have hc : Mdl4FileHeader.counts { h1 with dummyCount := d, materialCount := c, boneCount := c' } = (c, c', 0) :=
      Prod.ext rfl (Prod.ext rfl hmesh1)
    refine (stored_iff hc).trans ?_
    simp [hbone, hmesh, readEach]
  rw [storeField_bind_ok hmesh]
  have hc : Mdl4FileHeader.counts { h1 with dummyCount := d, materialCount := c, boneCount := c', meshCount := c'' } =
      (c, c', c'') := rfl
  have htail := mdl4BuildTail_keeps_counts (c, c', c'') ⟨r5, _, log⟩ hc
  refine (stored_iff htail).trans ?_
  simp [hbone, hmesh, readEach]

/-! ## The arrays -/

theorem mdl4AllocArrays_run (h : Mdl4FileHeader) (r : BinaryReader) :
    ∃ arrays r', mdl4AllocArrays h r = (.ok arrays, r') ∧
      (arrays.dummies = [] ∨ arrays.dummies = List.replicate h.dummyCount.toInt.toNat zeroMdl4Dummy) ∧
      (arrays.materials = [] ∨ arrays.materials = List.replicate h.materialCount.toInt.toNat zeroMdl4Material) ∧
      (arrays.nodes = [] ∨ arrays.nodes = List.replicate h.boneCount.toInt.toNat zeroMdl4Node) ∧
      (arrays.meshes = [] ∨ arrays.meshes = List.replicate h.meshCount.toInt.toNat zeroMdl4Mesh) := by
  obtain ⟨dummies, r1, h1, hdummies⟩ := allocArray_run h.dummyCount mdl4DummySize zeroMdl4Dummy r
  obtain ⟨materials, r2, h2, hmaterials⟩ := allocArray_run h.materialCount mdl4MaterialSize zeroMdl4Material r1
  obtain ⟨nodes, r3, h3, hnodes⟩ := allocArray_run h.boneCount mdl4NodeSize zeroMdl4Node r2
  obtain ⟨meshes, r4, h4, hmeshes⟩ := allocArray_run h.meshCount mdl4MeshSize zeroMdl4Mesh r3
  refine ⟨⟨dummies, materials, nodes, meshes⟩, r4, ?_, hdummies, hmaterials, hnodes, hmeshes⟩
  rw [mdl4AllocArrays, bind_ok h1, bind_ok h2, bind_ok h3, bind_ok h4, pure_run]

/-! ## What must be there -/

/-- The arrays that the destructor walks are there, and the materials can be freed. -/
def Mdl4Object.Counted (o : Mdl4Object) : Prop :=
  (∀ i < o.header.materialCount.toInt.toNat, i < o.materials.length ∧ (o.materials.getD i zeroMdl4Material).Counted) ∧
    o.header.boneCount.toInt.toNat ≤ o.nodes.length ∧ o.header.meshCount.toInt.toNat ≤ o.meshes.length

/-- The arrays are as long as the header says, and the materials can be freed. -/
structure Mdl4Object.Full (h : Mdl4FileHeader) (o : Mdl4Object) : Prop where
  header_eq : o.header = h
  length_dummies : o.dummies.length = h.dummyCount.toInt.toNat
  length_materials : o.materials.length = h.materialCount.toInt.toNat
  length_nodes : o.nodes.length = h.boneCount.toInt.toNat
  length_meshes : o.meshes.length = h.meshCount.toInt.toNat
  materials_ok : ∀ m ∈ o.materials, m.Counted

/-- With arrays as long as the header says, it is left that the materials can be freed. -/
theorem Mdl4Object.counted_iff {h : Mdl4FileHeader} {o : Mdl4Object} (hheader : o.header = h)
    (hmaterials : o.materials.length = h.materialCount.toInt.toNat)
    (hnodes : o.nodes.length = h.boneCount.toInt.toNat) (hmeshes : o.meshes.length = h.meshCount.toInt.toNat) :
    o.Counted ↔ ∀ m ∈ o.materials, m.Counted := by
  unfold Mdl4Object.Counted
  rw [hheader, ← hmaterials]
  constructor
  · rintro ⟨hall, -⟩ m hm
    obtain ⟨i, hi, rfl⟩ := List.getElem_of_mem hm
    have hok := (hall i hi).2
    rwa [List.getD_eq_getElem?_getD, List.getElem?_eq_getElem hi] at hok
  · refine fun hall => ⟨fun i hi => ⟨hi, ?_⟩, hnodes.ge, hmeshes.ge⟩
    rw [List.getD_eq_getElem?_getD, List.getElem?_eq_getElem hi]
    exact hall _ (List.getElem_mem hi)

theorem Mdl4Object.Full.counted {h : Mdl4FileHeader} {o : Mdl4Object} (ho : Mdl4Object.Full h o) : o.Counted :=
  (Mdl4Object.counted_iff ho.header_eq ho.length_materials ho.length_nodes ho.length_meshes).2 ho.materials_ok

/-! ## Cleaning up -/

theorem mdl4FreeMaterial_ok (b : Built BinaryReader Mdl4MaterialObject) : (mdl4FreeMaterial b).1 = .ok () := by
  obtain ⟨log, hrun, -⟩ := upTo_access (ε := SfError) (T := Mdl4MaterialObject.paramTable) b.object.paramCount 0 b
  rw [mdl4FreeMaterial, state_bind_run, hrun]

theorem mdl4FreeMaterial_sound (b : Built BinaryReader Mdl4MaterialObject) :
    (mdl4FreeMaterial b).2.Sound ↔ b.Sound ∧ b.object.Counted := by
  obtain ⟨log, hrun, hlog⟩ := upTo_access (ε := SfError) (T := Mdl4MaterialObject.paramTable) b.object.paramCount 0 b
  rw [mdl4FreeMaterial, state_bind_run, hrun]
  refine hlog.trans (and_congr_right fun _ => ?_)
  change _ → 0 + b.object.paramCount ≤ b.object.params.length ↔ b.object.paramCount ≤ b.object.params.length
  omega

theorem mdl4Destroy_sound (b : Built BinaryReader Mdl4Object) :
    (mdl4Destroy b).2.Sound ↔ SoundWith Mdl4Object.Counted b := by
  have hfree : ∀ i b, (element materialTable zeroMdl4Material i mdl4FreeMaterial b :
      Except SfError Unit × Built BinaryReader Mdl4Object).1 = .ok () := by
    intro i b
    rw [element_run]
    exact mdl4FreeMaterial_ok _
  obtain ⟨b1, h1⟩ := upTo_ok hfree b.object.header.materialCount.toInt.toNat 0 b
  obtain ⟨l, -, hobject⟩ := @upTo_object _ _ _ _ materialTable zeroMdl4Material (fun _ => mdl4FreeMaterial)
    b.object.header.materialCount.toInt.toNat 0 b
  have hmaterials := @sound_free_upTo _ _ _ _ materialTable zeroMdl4Material _ Mdl4MaterialObject.Counted
    mdl4FreeMaterial_ok mdl4FreeMaterial_sound b.object.header.materialCount.toInt.toNat 0 b
  rw [h1] at hobject hmaterials
  change b1.object = materialTable.set l b.object at hobject
  obtain ⟨log2, h2, hlog2⟩ := upTo_access (ε := SfError) (T := nodeTable) b.object.header.boneCount.toInt.toNat 0 b1
  obtain ⟨log3, h3, hlog3⟩ := upTo_access (ε := SfError) (T := meshTable) b.object.header.meshCount.toInt.toNat 0
    { b1 with log := log2 }
  rw [mdl4Destroy, state_bind_run, bind_ok h1, bind_ok h2, h3]
  have hnodes : (nodeTable.get b1.object).length = b.object.nodes.length := by
    rw [hobject]
    rfl
  have hmeshes : (meshTable.get b1.object).length = b.object.meshes.length := by
    rw [hobject]
    rfl
  refine hlog3.trans ?_
  have hsound2 : (Built.mk b1.source b1.object log2).Sound ↔ b1.Sound ∧
      (0 < b.object.header.boneCount.toInt.toNat → 0 + b.object.header.boneCount.toInt.toNat ≤
        (nodeTable.get b1.object).length) := hlog2
  rw [hsound2, hmaterials, hnodes]
  simp only [hmeshes]
  unfold SoundWith Mdl4Object.Counted
  constructor
  · rintro ⟨⟨⟨hb, hall⟩, hbones⟩, hmesh⟩
    exact ⟨hb, fun i hi => hall i (Nat.zero_le i) (by omega), by omega, by omega⟩
  · rintro ⟨hb, hall, hbones, hmesh⟩
    exact ⟨⟨⟨hb, fun j _ hj => hall j (by omega)⟩, by omega⟩, by omega⟩

section

variable (os : Win32)

theorem mdl4PopulateAndDestroy_sound (b : Built BinaryReader Mdl4Object) :
    (mdl4PopulateAndDestroy os b).2.Sound ↔ SoundWith Mdl4Object.Counted (mdl4Populate os b).2 := by
  rw [← mdl4Destroy_sound, mdl4PopulateAndDestroy]
  rcases h : mdl4Populate os b with ⟨e | ⟨⟩, b'⟩
  · rw [bind_error (onFailure_error h _)]
  · rw [bind_ok (onFailure_ok h _)]

/-! ## Filling the arrays -/

/-- The dummies and the materials before the one with the number `k`. -/
def mdl4ReadBefore (h : Mdl4FileHeader) (k : Nat) : ReadM Unit := do
  let _ ← readEach mdl4ReadDummy h.dummyCount.toInt.toNat
  let _ ← readEach (mdl4ReadMaterial os) k
  pure ()

/-- What is done between the header and the material with the number `k`. -/
def mdl4ReachMaterial (h : Mdl4FileHeader) (k : Nat) : ReadM Unit := do
  let arrays ← mdl4AllocArrays h
  check (¬ (ArrayAbsent h.dummyCount arrays.dummies ∨ h.Absent arrays)) .oom
  mdl4ReadBefore os h k

/-- The loop comes to a material exactly if those before it are read. -/
theorem mirrors_mdl4Materials {h : Mdl4FileHeader} {b : Built BinaryReader Mdl4Object}
    (hmaterials : b.object.materials = List.replicate h.materialCount.toInt.toNat zeroMdl4Material) {k : Nat}
    (hk : k < h.materialCount.toInt.toNat) :
    Mirrors (upTo (fun i => element materialTable zeroMdl4Material i (mdl4BuildMaterial os)) k 0)
      (readEach (mdl4ReadMaterial os) k) b fun _ _ o => (materialTable.get o).getD k zeroMdl4Material = zeroMdl4Material := by
  have hsplit : materialTable.get b.object = [] ++ List.replicate k zeroMdl4Material ++
      List.replicate (h.materialCount.toInt.toNat - k) zeroMdl4Material := by
    change b.object.materials = _
    rw [hmaterials, List.nil_append, List.replicate_append_replicate, Nat.add_sub_cancel' hk.le]
  refine (mirrors_upTo (fun b hb => mirrors_mdl4BuildMaterial os b hb) k 0 List.length_nil hsplit).mono fun _ ms o ho => ?_
  obtain ⟨hlen, rfl⟩ := ho
  have hpast : (ms.map Mdl4Material.object).length ≤ k := by rw [List.length_map, hlen]
  rw [materialTable.get_set, List.nil_append, List.getD_eq_getElem?_getD, List.getElem?_append_right hpast]
  rw [List.length_map, hlen, Nat.sub_self, List.getElem?_replicate_of_lt (Nat.sub_pos_of_lt hk), Option.getD_some]

/-- The loop over blank materials. -/
theorem mdl4Materials_settled {h : Mdl4FileHeader} {b : Built BinaryReader Mdl4Object} (hb : b.Sound)
    (hmaterials : b.object.materials = List.replicate h.materialCount.toInt.toNat zeroMdl4Material) :
    Settled materialTable Mdl4MaterialObject.Counted
      (upTo (fun i => element materialTable zeroMdl4Material i (mdl4BuildMaterial os)) h.materialCount.toInt.toNat 0 b).2 ↔
      ∀ k < h.materialCount.toInt.toNat, ∀ ms r, readEach (mdl4ReadMaterial os) k b.source = (.ok ms, r) →
        Mdl4ParamsThere os r := by
  have hblank (j : Nat) (hj : j < h.materialCount.toInt.toNat) :
      (materialTable.get b.object)[j]? = some zeroMdl4Material := by
    change b.object.materials[j]? = _
    rw [hmaterials, List.getElem?_replicate_of_lt hj]
  have hfresh : Settled materialTable Mdl4MaterialObject.Counted b := by
    refine ⟨hb, fun m hm => ?_⟩
    change m ∈ b.object.materials at hm
    rw [hmaterials] at hm
    rw [List.eq_of_mem_replicate hm]
    exact zeroMdl4Material_counted
  have hloop := settled_upTo (T := materialTable) (m := fun _ => mdl4BuildMaterial os)
    (C := fun _ => Mdl4ParamsThere os) zeroMdl4Material_counted (fun _ b hb => mdl4_material_settled os b hb)
    h.materialCount.toInt.toNat 0 b fun j _ hj => hblank j (by omega)
  refine hloop.trans ((and_iff_right hfresh).trans (forall₂_congr fun k hk => ?_))
  have hmirror := mirrors_mdl4Materials os hmaterials hk
  constructor
  · intro hall ms r hread
    obtain ⟨⟨⟩, b', hrun, rfl, -⟩ := hmirror.1 ms r hread
    exact hall b' hrun
  · intro hall b' hrun
    rcases hread : readEach (mdl4ReadMaterial os) k b.source with ⟨e | ms, r⟩
    · obtain ⟨b'', hrun', -⟩ := hmirror.2 e r hread
      rw [hrun] at hrun'
      cases hrun'
    · obtain ⟨⟨⟩, b'', hrun', rfl, -⟩ := hmirror.1 ms r hread
      rw [hrun] at hrun'
      cases hrun'
      exact hall ms _ hread

/-- A loop over the dummies, the nodes or the meshes stays within full arrays. -/
theorem keeps_readElements {τ : Type} {T : TableOf Mdl4Object τ} {blank : τ} {read : ReadM τ} {h : Mdl4FileHeader}
    {n : Nat}
    (hset : ∀ l o, l.length = (T.get o).length → Mdl4Object.Full h o → Mdl4Object.Full h (T.set l o))
    (hin : ∀ o, Mdl4Object.Full h o → (T.get o).length = n) :
    Keeps (SoundWith (Mdl4Object.Full h)) (upTo (readElement T blank read) n 0) :=
  upTo_keeps fun j _ hj => readElement_keeps hset fun o ho => by rw [hin o ho]; omega

/-- The arrays are filled without an access outside of them unless a material is short of an array. -/
theorem mdl4FillArrays_settled {h : Mdl4FileHeader}
    {b : Built BinaryReader Mdl4Object} (hb : SoundWith (Mdl4Object.Full h) b)
    (hmaterials : b.object.materials = List.replicate h.materialCount.toInt.toNat zeroMdl4Material)
    (hdummies : b.object.dummies = List.replicate h.dummyCount.toInt.toNat zeroMdl4Dummy) :
    SoundWith Mdl4Object.Counted (mdl4FillArrays os h b).2 ↔
      ∀ k < h.materialCount.toInt.toNat, ∀ r, mdl4ReadBefore os h k b.source = (.ok (), r) → Mdl4ParamsThere os r := by
  have hkeepDummies : Keeps (SoundWith (Mdl4Object.Full h))
      (upTo (readElement dummyTable zeroMdl4Dummy mdl4ReadDummy) h.dummyCount.toInt.toNat 0) :=
    keeps_readElements (fun l o hl ho => ⟨ho.1, hl.trans ho.2, ho.3, ho.4, ho.5, ho.6⟩) fun o ho => ho.2
  have hkeepNodes : Keeps (SoundWith (Mdl4Object.Full h))
      (upTo (readElement nodeTable zeroMdl4Node (mdl4ReadNode os)) h.boneCount.toInt.toNat 0) :=
    keeps_readElements (fun l o hl ho => ⟨ho.1, ho.2, ho.3, hl.trans ho.4, ho.5, ho.6⟩) fun o ho => ho.4
  have hkeepMeshes : Keeps (SoundWith (Mdl4Object.Full h))
      (upTo (readElement meshTable zeroMdl4Mesh (mdl4ReadMesh h.toMdl4Header)) h.meshCount.toInt.toNat 0) :=
    keeps_readElements (fun l o hl ho => ⟨ho.1, ho.2, ho.3, ho.4, hl.trans ho.5, ho.6⟩) fun o ho => ho.5
  have hmirror := @mirrors_readElements _ _ b dummyTable zeroMdl4Dummy mdl4ReadDummy _ hdummies
  unfold mdl4FillArrays
  rcases hread : readEach mdl4ReadDummy h.dummyCount.toInt.toNat b.source with ⟨e | ds, r1⟩
  · obtain ⟨b1, hrun, -⟩ := hmirror.2 e r1 hread
    have hb1 := hkeepDummies b hb
    rw [hrun] at hb1
    rw [bind_error hrun]
    refine iff_of_true ⟨hb1.1, hb1.2.counted⟩ fun k _ r h => ?_
    rw [mdl4ReadBefore, bind_error hread] at h
    cases h
  obtain ⟨⟨⟩, b1, hrun, rfl, -, hobject⟩ := hmirror.1 ds r1 hread
  have hb1 := hkeepDummies b hb
  rw [hrun] at hb1
  have hmaterials1 : b1.object.materials = List.replicate h.materialCount.toInt.toNat zeroMdl4Material := by
    rw [hobject]
    exact hmaterials
  have hloop := mdl4Materials_settled os hb1.1 hmaterials1
  obtain ⟨l, hl, hobject2⟩ := @upTo_object _ _ _ _ materialTable zeroMdl4Material (fun _ => mdl4BuildMaterial os)
    h.materialCount.toInt.toNat 0 b1
  rw [bind_ok hrun]
  have hgoal : (∀ k < h.materialCount.toInt.toNat, ∀ r, mdl4ReadBefore os h k b.source = (.ok (), r) →
      Mdl4ParamsThere os r) ↔ ∀ k < h.materialCount.toInt.toNat, ∀ ms r,
        readEach (mdl4ReadMaterial os) k b1.source = (.ok ms, r) → Mdl4ParamsThere os r := by
    refine forall₂_congr fun k _ => ⟨fun hall ms r hms => hall r ?_, fun hall r hr => ?_⟩
    · rw [mdl4ReadBefore, bind_ok hread, bind_ok hms, pure_run]
    · rw [mdl4ReadBefore, bind_ok hread] at hr
      obtain ⟨ms, r2, hms, hpure⟩ := bind_eq_ok.1 hr
      cases hpure
      exact hall ms _ hms
  rw [hgoal, ← hloop]
  rcases hfilled : upTo (fun i => element materialTable zeroMdl4Material i (mdl4BuildMaterial os))
    h.materialCount.toInt.toNat 0 b1 with ⟨e | ⟨⟩, b2⟩
  · -- the materials end the building
    rw [hfilled] at hobject2
    change b2.object = materialTable.set l b1.object at hobject2
    rw [bind_error hfilled]
    refine and_congr_right fun _ => Mdl4Object.counted_iff (h := h) ?_ ?_ ?_ ?_
    · rw [hobject2]
      exact hb1.2.header_eq
    · rw [hobject2]
      exact hl.trans hb1.2.length_materials
    · rw [hobject2]
      exact hb1.2.length_nodes
    · rw [hobject2]
      exact hb1.2.length_meshes
  · -- a loop that succeeds has not come to a material that is short of an array
    have hreached : ∀ k < h.materialCount.toInt.toNat, ∀ ms r, readEach (mdl4ReadMaterial os) k b1.source = (.ok ms, r) →
        Mdl4ParamsThere os r := by
      intro k hk ms r hms
      obtain ⟨bk, hrun, hstep⟩ := upTo_reaches hfilled hk
      obtain ⟨⟨⟩, bk', hrun', rfl, hblank⟩ := (mirrors_mdl4Materials os hmaterials1 hk).1 ms r hms
      rw [hrun] at hrun'
      cases hrun'
      rw [Nat.zero_add, element_run] at hstep
      exact mdl4_material_ok os (focus materialTable zeroMdl4Material k bk) hblank hstep
    rw [hfilled] at hloop hobject2
    change b2.object = materialTable.set l b1.object at hobject2
    have hsettled := hloop.2 hreached
    have hfull2 : SoundWith (Mdl4Object.Full h) b2 := by
      refine ⟨hsettled.1, ?_⟩
      have hall : ∀ m ∈ b2.object.materials, m.Counted := hsettled.2
      rw [hobject2] at hall ⊢
      exact ⟨hb1.2.1, hb1.2.2, hl.trans hb1.2.3, hb1.2.4, hb1.2.5, hall⟩
    have hrest := (hkeepNodes.bind fun _ => hkeepMeshes) b2 hfull2
    rw [bind_ok hfilled]
    exact iff_of_true ⟨hrest.1, hrest.2.counted⟩ hsettled

/-! ## The whole object -/

theorem Mdl4Object.counted_of_no_arrays {o : Mdl4Object} (hmaterials : o.materials = []) (hnodes : o.nodes = [])
    (hmeshes : o.meshes = []) : o.Counted ↔ ¬ o.header.Stored := by
  unfold Mdl4Object.Counted Mdl4FileHeader.Stored
  rw [hmaterials, hnodes, hmeshes]
  simp only [List.length_nil]
  constructor
  · rintro ⟨hmaterial, hbone, hmesh⟩ hstored
    have hnone : ¬ 0 < o.header.materialCount.toInt.toNat := fun hpos => Nat.not_lt_zero 0 (hmaterial 0 hpos).1
    omega
  · intro hnone
    exact ⟨fun i hi => by omega, by omega, by omega⟩

/-- Once the header is read, with the arrays that were granted. -/
theorem mdl4Allocated_settled (h : Mdl4FileHeader) (r : BinaryReader) {log : List Access}
    (hlog : ∀ a ∈ log, a.Valid) {o : Mdl4Object} (hheader : o.header = h) :
    SoundWith Mdl4Object.Counted ((do
      let arrays ← reading (mdl4AllocArrays h)
      assign fun o => ⟨o.header, arrays.dummies, arrays.materials, arrays.nodes, arrays.meshes⟩
      check (¬ (ArrayAbsent h.dummyCount arrays.dummies ∨ h.Absent arrays)) .oom
      mdl4FillArrays os h : ConstructM Mdl4Object Unit) ⟨r, o, log⟩).2 ↔
      (∀ arrays r', mdl4AllocArrays h r = (.ok arrays, r') → ¬ h.Absent arrays) ∧
        ∀ k < h.materialCount.toInt.toNat, ∀ r', mdl4ReachMaterial os h k r = (.ok (), r') → Mdl4ParamsThere os r' := by
  obtain ⟨arrays, r1, halloc, hdummies, hmaterials, hnodes, hmeshes⟩ := mdl4AllocArrays_run h r
  have honly : (∀ arrays' r', mdl4AllocArrays h r = (.ok arrays', r') → ¬ h.Absent arrays') ↔ ¬ h.Absent arrays := by
    rw [halloc]
    refine ⟨fun hall => hall arrays r1 rfl, fun hnot arrays' r' heq => ?_⟩
    cases heq
    exact hnot
  let o2 : Mdl4Object := ⟨o.header, arrays.dummies, arrays.materials, arrays.nodes, arrays.meshes⟩
  have hsound : (Built.mk r1 o2 log).Sound := hlog
  rw [honly, reading_bind_ok halloc, assign_bind_run]
  by_cases hmissing : ArrayAbsent h.dummyCount arrays.dummies ∨ h.Absent arrays
  · have hreach : ∀ k < h.materialCount.toInt.toNat, ∀ r', mdl4ReachMaterial os h k r = (.ok (), r') →
        Mdl4ParamsThere os r' := by
      intro k _ r' hrun
      rw [mdl4ReachMaterial, bind_ok halloc, check_bind_neg (not_not.2 hmissing)] at hrun
      cases hrun
    rw [check_bind_neg (not_not.2 hmissing), and_iff_left hreach]
    change (Built.mk r1 o2 log).Sound ∧ o2.Counted ↔ _
    rw [and_iff_right hsound]
    by_cases habsent : h.Absent arrays
    · refine iff_of_false (fun hcounted => ?_) (not_not.2 habsent)
      obtain ⟨hmaterial, hbone, hmesh⟩ := hcounted
      simp only [show o2.header = h from hheader] at hmaterial hbone hmesh
      change _ ≤ arrays.nodes.length at hbone
      change _ ≤ arrays.meshes.length at hmesh
      rcases habsent with habsent | habsent | habsent
      · have hshort := habsent.short
        exact absurd (hmaterial arrays.materials.length hshort).1 (Nat.lt_irrefl _)
      · have hshort := habsent.short
        omega
      · have hshort := habsent.short
        omega
    · refine iff_of_true ?_ habsent
      have hmaterial := length_of_not_absent hmaterials fun hno => habsent (.inl hno)
      have hnode := length_of_not_absent hnodes fun hno => habsent (.inr (.inl hno))
      have hmesh := length_of_not_absent hmeshes fun hno => habsent (.inr (.inr hno))
      refine (Mdl4Object.counted_iff (h := h) (o := o2) hheader ?_ ?_ ?_).2 fun m hm => ?_
      · exact (congrArg List.length hmaterial).trans List.length_replicate
      · exact (congrArg List.length hnode).trans List.length_replicate
      · exact (congrArg List.length hmesh).trans List.length_replicate
      · change m ∈ arrays.materials at hm
        rw [hmaterial] at hm
        rw [List.eq_of_mem_replicate hm]
        exact zeroMdl4Material_counted
  · have hpresent : ¬ h.Absent arrays := fun hno => hmissing (.inr hno)
    have hdummy := length_of_not_absent hdummies fun hno => hmissing (.inl hno)
    have hmaterial := length_of_not_absent hmaterials fun hno => hpresent (.inl hno)
    have hnode := length_of_not_absent hnodes fun hno => hpresent (.inr (.inl hno))
    have hmesh := length_of_not_absent hmeshes fun hno => hpresent (.inr (.inr hno))
    rw [check_bind_pos hmissing, and_iff_right hpresent]
    have hfull : Mdl4Object.Full h o2 := by
      refine ⟨hheader, (congrArg List.length hdummy).trans List.length_replicate,
        (congrArg List.length hmaterial).trans List.length_replicate,
        (congrArg List.length hnode).trans List.length_replicate,
        (congrArg List.length hmesh).trans List.length_replicate, fun m hm => ?_⟩
      change m ∈ arrays.materials at hm
      rw [hmaterial] at hm
      rw [List.eq_of_mem_replicate hm]
      exact zeroMdl4Material_counted
    refine (mdl4FillArrays_settled os ⟨hsound, hfull⟩ hmaterial hdummy).trans ?_
    · refine forall₂_congr fun k _ => forall_congr' fun r' => ?_
      rw [mdl4ReachMaterial, bind_ok halloc, check_bind_pos hmissing]

/-- **When an object is built without a count whose array is not there.** -/
theorem mdl4Populate_settled (r : BinaryReader) :
    SoundWith Mdl4Object.Counted (mdl4Populate os ⟨r, {}, []⟩).2 ↔
      (∀ e b, mdl4BuildHeader ⟨r, zeroMdl4Header, []⟩ = (.error e, b) → ¬ b.object.Stored) ∧
        ∀ b, mdl4BuildHeader ⟨r, zeroMdl4Header, []⟩ = (.ok (), b) →
          (∀ arrays r', mdl4AllocArrays b.object b.source = (.ok arrays, r') → ¬ b.object.Absent arrays) ∧
            ∀ k < b.object.materialCount.toInt.toNat, ∀ r',
              mdl4ReachMaterial os b.object k b.source = (.ok (), r') → Mdl4ParamsThere os r' := by
  have hlog := mdl4BuildHeader_log ⟨r, zeroMdl4Header, []⟩
  have hrun : (onHeader mdl4BuildHeader : ConstructM Mdl4Object Unit) ⟨r, {}, []⟩ =
      ((mdl4BuildHeader ⟨r, zeroMdl4Header, []⟩).1, ⟨(mdl4BuildHeader ⟨r, zeroMdl4Header, []⟩).2.source,
        ⟨(mdl4BuildHeader ⟨r, zeroMdl4Header, []⟩).2.object, [], [], [], []⟩,
        (mdl4BuildHeader ⟨r, zeroMdl4Header, []⟩).2.log⟩) := rfl
  rcases hheader : mdl4BuildHeader ⟨r, zeroMdl4Header, []⟩ with ⟨e | ⟨⟩, b⟩
  · rw [hheader] at hlog hrun
    rw [mdl4Populate, bind_error hrun]
    have hsound : ∀ a ∈ b.log, a.Valid := by
      rw [hlog]
      nofun
    refine (and_iff_right hsound).trans ((Mdl4Object.counted_of_no_arrays rfl rfl rfl).trans ?_)
    constructor
    · refine fun hnone => ⟨fun e' b' heq => ?_, fun b' heq => ?_⟩
      · cases heq
        exact hnone
      · cases heq
    · exact fun hall => hall.1 e b rfl
  · rw [hheader] at hlog hrun
    rw [mdl4Populate, bind_ok hrun, state_bind_run]
    have hsound : ∀ a ∈ b.log, a.Valid := by
      rw [hlog]
      nofun
    refine (mdl4Allocated_settled os b.object b.source hsound rfl).trans ?_
    constructor
    · refine fun hall => ⟨fun e' b' heq => ?_, fun b' heq => ?_⟩
      · cases heq
      · cases heq
        exact hall
    · exact fun hall => hall.2 b rfl

/-- A count is read, but not the whole header. -/
def Mdl4HeaderAbsent (r : BinaryReader) : Prop := Mdl4CountStored r ∧ ∀ h r', mdl4ReadHeader r ≠ (.ok h, r')

/-- An array that `sf_mdl4_destroy` walks is refused. -/
def Mdl4FileHeader.ArraysAbsent (h : Mdl4FileHeader) (r : BinaryReader) : Prop :=
  ∃ arrays r', mdl4AllocArrays h r = (.ok arrays, r') ∧ h.Absent arrays

/-- When the accesses to an object, up to its destruction, are to elements that are there. -/
theorem mdl4PopulateAndDestroy_sound_iff (r : BinaryReader) :
    (mdl4PopulateAndDestroy os ⟨r, {}, []⟩).2.Sound ↔ ¬ Mdl4HeaderAbsent r ∧
      ∀ h r1, mdl4ReadHeader r = (.ok h, r1) → ¬ h.ArraysAbsent r1 ∧
        ∀ k < h.materialCount.toInt.toNat, ∀ r', mdl4ReachMaterial os h k r1 = (.ok (), r') → Mdl4ParamsThere os r' := by
  rw [mdl4PopulateAndDestroy_sound, mdl4Populate_settled]
  have hstored := stored_mdl4BuildHeader_iff r
  have hmirror := mirrors_mdl4BuildHeader (b := ⟨r, zeroMdl4Header, []⟩) rfl
  rcases hread : mdl4ReadHeader r with ⟨e | h, r1⟩
  · obtain ⟨b, hrun, -⟩ := hmirror.2 e r1 hread
    rw [hrun] at hstored ⊢
    have hnone : Mdl4HeaderAbsent r ↔ Mdl4CountStored r :=
      and_iff_left fun h r' hok => by rw [hread] at hok; cases hok
    rw [hnone, ← hstored]
    constructor
    · refine fun hall => ⟨hall.1 e b rfl, fun h' r' heq => ?_⟩
      cases heq
    · refine fun hall => ⟨fun e' b' heq => ?_, fun b' heq => ?_⟩
      · cases heq
        exact hall.1
      · cases heq
  · obtain ⟨⟨⟩, b, hrun, hsource, hobject⟩ := hmirror.1 h r1 hread
    rw [hrun]
    have hsome : ¬ Mdl4HeaderAbsent r := fun hno => hno.2 h r1 hread
    rw [and_iff_right hsome]
    have hall (h' : Mdl4FileHeader) (r' : BinaryReader) :
        (∀ arrays r2, mdl4AllocArrays h' r' = (.ok arrays, r2) → ¬ h'.Absent arrays) ↔ ¬ h'.ArraysAbsent r' := by
      simp only [Mdl4FileHeader.ArraysAbsent, not_exists, not_and]
    subst hsource hobject
    constructor
    · intro hbuilt h' r' heq
      cases heq
      rw [← hall]
      exact hbuilt.2 b rfl
    · refine fun hrest => ⟨fun e' b' heq => ?_, fun b' heq => ?_⟩
      · cases heq
      · cases heq
        rw [hall]
        exact hrest b.object b.source rfl

/-- The header of the file fails with a count stored, or an array is refused that the destructor walks. -/
def Mdl4ArrayAbsent (r : BinaryReader) : Prop :=
  Mdl4HeaderAbsent r ∨ ∃ h r1, mdl4ReadHeader r = (.ok h, r1) ∧
    (h.ArraysAbsent r1 ∨ ∃ k < h.materialCount.toInt.toNat, ∃ r2 head r3,
      mdl4ReachMaterial os h k r1 = (.ok (), r2) ∧ mdl4MaterialHead os r2 = (.ok head, r3) ∧ head.ParamsAbsent r3)

theorem not_mdl4ArrayAbsent_iff (r : BinaryReader) : ¬ Mdl4ArrayAbsent os r ↔ ¬ Mdl4HeaderAbsent r ∧
    ∀ h r1, mdl4ReadHeader r = (.ok h, r1) → ¬ h.ArraysAbsent r1 ∧
      ∀ k < h.materialCount.toInt.toNat, ∀ r', mdl4ReachMaterial os h k r1 = (.ok (), r') → Mdl4ParamsThere os r' := by
  unfold Mdl4ArrayAbsent Mdl4ParamsThere
  constructor
  · refine fun hnone => ⟨fun hheader => hnone (.inl hheader), fun h r1 hh => ⟨fun habsent => ?_, ?_⟩⟩
    · exact hnone (.inr ⟨h, r1, hh, .inl habsent⟩)
    · intro k hk r2 hreach head r3 hhead hparams
      exact hnone (.inr ⟨h, r1, hh, .inr ⟨k, hk, r2, head, r3, hreach, hhead, hparams⟩⟩)
  · rintro ⟨hheader, hrest⟩ (habsent | ⟨h, r1, hh, habsent | ⟨k, hk, r2, head, r3, hreach, hhead, hparams⟩⟩)
    · exact hheader habsent
    · exact (hrest h r1 hh).1 habsent
    · exact (hrest h r1 hh).2 k hk r2 hreach head r3 hhead hparams

end

/-- The reader of a block, with an object to build. -/
def Mdl4Starts (flexible : Bool) (data : List UInt8) (heap : Heap) (r : BinaryReader) : Prop :=
  (onMemory data true flexible (do
    let _ ← onHeap Heap.alloc
    state) heap).1 = .ok r

/-- **When reading an MDL4 model and destroying it stays within the arrays that are there.** -/
theorem mdl4Accesses_valid_iff (os : Win32) (flexible : Bool) (data : List UInt8) (heap : Heap) :
    (∀ accesses, (mdl4Accesses os flexible data heap).1 = .ok accesses → ∀ a ∈ accesses, a.Valid) ↔
      ∀ r, Mdl4Starts flexible data heap r → ¬ Mdl4ArrayAbsent os r := by
  unfold mdl4Accesses Mdl4Starts
  rcases onMemory_cases data true flexible heap with ⟨heap', hreader⟩ | hnone
  swap
  · -- without a reader there is no object
    refine iff_of_true (fun accesses h => ?_) fun r h => ?_
    · rw [hnone] at h
      cases h
    · rw [hnone] at h
      cases h
  simp only [hreader]
  rcases halloc : onHeap Heap.alloc (create data true flexible heap') with ⟨e | z, r0⟩
  · rw [bind_error halloc]
    exact iff_of_true (fun _ h => by cases h) fun _ h => by rw [bind_error halloc] at h; cases h
  simp only [bind_ok halloc]
  have haccesses : (∀ accesses, (logOf {} (mdl4PopulateAndDestroy os) r0).1 = .ok accesses → ∀ a ∈ accesses, a.Valid) ↔
      (mdl4PopulateAndDestroy os ⟨r0, {}, []⟩).2.Sound :=
    ⟨fun h => h _ rfl, fun h accesses heq => by cases heq; exact h⟩
  rw [haccesses, mdl4PopulateAndDestroy_sound_iff, ← not_mdl4ArrayAbsent_iff]
  constructor
  · intro hall r heq
    cases heq
    exact hall
  · exact fun hall => hall r0 rfl

/-- A header that ends after the number of materials. -/
def mdl4Truncated : List UInt8 :=
  cstr "MDL4" ++ [0, 4, 0, 1] ++ [0, 0, 0, 0] ++ [0, 0, 0, 0] ++ [0, 0, 0, 0] ++ [0, 0, 0, 1]

/-- The material is destroyed, but it was never there. -/
theorem mdl4Truncated_material_absent :
    (mdl4Accesses Win32.ascii false mdl4Truncated []).1 = .ok [{ index := 0, allocated := 0 }] ∧
      ¬ ∀ accesses, (mdl4Accesses Win32.ascii false mdl4Truncated []).1 = .ok accesses → ∀ a ∈ accesses, a.Valid := by
  have hrun : (mdl4Accesses Win32.ascii false mdl4Truncated []).1 = .ok [{ index := 0, allocated := 0 }] := by decide +kernel
  refine ⟨hrun, fun hall => ?_⟩
  have hvalid := hall _ hrun _ (List.mem_singleton.2 rfl)
  exact Nat.lt_irrefl 0 hvalid

end SoulsFormats
