import SoulsFormats.Geom.FlverChannels

set_option autoImplicit false

/-! # Whether a decoded mesh keeps its channels

`sf_flver2_decode_mesh` taken apart: a decoded mesh has all UV pairs and colours of its buffers exactly if the
numbering that restarts in each buffer finds every item under the index of its member. One buffer whose members
store one item each is such a case. -/

namespace SoulsFormats.Flver

open Fallible

/-- The buffers of a mesh of the model with their layouts. -/
def Flver2.meshSections (f : Flver2) (meshIndex : Nat) : Except SfError (List Section) := do
  let mesh ← elementAt f.meshes meshIndex
  let buffers ← f.meshBuffers mesh
  f.sections buffers

/-- What a successful call has done. -/
theorem flver2DecodeMesh_ok {f : Flver2} {meshIndex : Nat} {h h' : Heap} {out : DecodedMesh} {mesh : Flver2Mesh}
    {buffers : List VertexBuffer} (hrun : flver2DecodeMesh f meshIndex h = (.ok out, h'))
    (hmesh : elementAt f.meshes meshIndex = .ok mesh) (hbuffers : f.meshBuffers mesh = .ok buffers)
    (hn : vertexCountOf buffers ≠ 0) :
    ∃ a vertices indices, buffers.foldlM (scanBuffer f) .none = .ok a ∧
      (List.range (vertexCountOf buffers)).mapM (mergedVertex f ⟨uvFactorOf f.version⟩ buffers) = .ok vertices ∧
      out = gatherMesh a vertices indices := by
  unfold flver2DecodeMesh at hrun
  obtain ⟨mesh', h1, hmesh', hrun⟩ := bind_eq_ok.1 hrun
  rw [lift_run, hmesh] at hmesh'
  cases hmesh'
  obtain ⟨buffers', h2, hbuffers', hrun⟩ := bind_eq_ok.1 hrun
  rw [lift_run, hbuffers] at hbuffers'
  cases hbuffers'
  rw [if_neg hn] at hrun
  obtain ⟨-, h3, -, hrun⟩ := bind_eq_ok.1 hrun
  obtain ⟨a, h4, hscan, hrun⟩ := bind_eq_ok.1 hrun
  obtain ⟨-, h5, -, hrun⟩ := bind_eq_ok.1 hrun
  obtain ⟨-, h6, -, hrun⟩ := bind_eq_ok.1 hrun
  obtain ⟨-, h7, -, hrun⟩ := bind_eq_ok.1 hrun
  obtain ⟨-, h8, -, hrun⟩ := bind_eq_ok.1 hrun
  obtain ⟨-, h9, -, hrun⟩ := bind_eq_ok.1 hrun
  obtain ⟨-, h10, -, hrun⟩ := bind_eq_ok.1 hrun
  obtain ⟨-, h11, -, hrun⟩ := bind_eq_ok.1 hrun
  obtain ⟨vertices, h12, hvertices, hrun⟩ := bind_eq_ok.1 hrun
  obtain ⟨indices, h13, -, hrun⟩ := bind_eq_ok.1 hrun
  cases hrun
  exact ⟨a, vertices, indices, congrArg Prod.fst hscan, congrArg Prod.fst hvertices, rfl⟩

/-- A decoded mesh keeps its UV pairs and its colours exactly if there are no vertices or every item is in place. -/
theorem decode_mesh_channels_iff {f : Flver2} {meshIndex : Nat} {h h' : Heap} {out : DecodedMesh}
    {sections : List Section} (hrun : flver2DecodeMesh f meshIndex h = (.ok out, h'))
    (hsections : f.meshSections meshIndex = .ok sections) (huvs : uvChannel.Numbered sections)
    (hcolors : colorChannel.Numbered sections) :
    (uvChannel.Kept (uvFactorOf f.version) sections (vertexCountOf (sections.map Prod.fst)) out ∧
      colorChannel.Kept (uvFactorOf f.version) sections (vertexCountOf (sections.map Prod.fst)) out) ↔
    (vertexCountOf (sections.map Prod.fst) = 0 ∨
      uvChannel.InPlace (uvFactorOf f.version) sections (vertexCountOf (sections.map Prod.fst)) ∧
      colorChannel.InPlace (uvFactorOf f.version) sections (vertexCountOf (sections.map Prod.fst))) := by
  obtain ⟨mesh, hmesh, hrest⟩ := except_bind_eq_ok.1 hsections
  obtain ⟨buffers, hbuffers, hsec⟩ := except_bind_eq_ok.1 hrest
  obtain ⟨rfl, hlayouts⟩ := sections_spec hsec
  by_cases hn : vertexCountOf (sections.map Prod.fst) = 0
  · -- Without vertices nothing is stored, and nothing is asked of the arrays.
    rw [hn]
    refine iff_of_true ⟨⟨nofun, nofun⟩, ⟨nofun, nofun⟩⟩ (.inl rfl)
  · obtain ⟨a, vertices, indices, hscan, hvertices, rfl⟩ := flver2DecodeMesh_ok hrun hmesh hbuffers hn
    have huv := @Channel.kept_iff_inPlace _ _ _ ⟨uvFactorOf f.version⟩ _ _ _ _ indices uvChannel_lawful hlayouts huvs
      hscan hvertices hn
    have hcolor := @Channel.kept_iff_inPlace _ _ _ ⟨uvFactorOf f.version⟩ _ _ _ _ indices colorChannel_lawful hlayouts
      hcolors hscan hvertices hn
    rw [huv, hcolor]
    exact (or_iff_right hn).symm

/-- A buffer of one vertex. -/
def oneVertex (bytes : List UInt8) (hlen : bytes.length < 2 ^ 31) : VertexBuffer where
  layoutIndex := 0
  vertexSize := bytes.length
  vertexCount := 1
  vertexBytes := bytes
  vertexSize_lt := hlen
  vertexCount_lt := by norm_num
  sized := (Nat.mul_one _).symm

/-- A model with one mesh of one buffer. -/
def oneBufferModel (layout : BufferLayout) (vb : VertexBuffer) : Flver2 where
  version := 0x20014
  meshes := [⟨[0], []⟩]
  vertexBuffers := [vb]
  bufferLayouts := [layout]
  faceSets := []

/-- Two UV members of one pair each and a colour. -/
def onePairLayout : BufferLayout where
  members := [⟨0, .short2, .uv, 0, 0⟩, ⟨4, .short2, .uv, 1, 0⟩, ⟨8, .color, .vertexColor, 0, 0⟩]

def onePairVertex : VertexBuffer := oneVertex [0, 8, 0, 4, 0, 2, 0, 1, 255, 128, 0, 255] (by decide)

theorem onePairVertex_kept :
    ∃ out h', flver2DecodeMesh (oneBufferModel onePairLayout onePairVertex) 0 [] = (.ok out, h') ∧
      uvChannel.Kept 2048 [(onePairVertex, onePairLayout)] 1 out ∧
      colorChannel.Kept 2048 [(onePairVertex, onePairLayout)] 1 out := by
  have hok : (flver2DecodeMesh (oneBufferModel onePairLayout onePairVertex) 0 []).1.isOk = true := by decide +kernel
  obtain ⟨out, h', hrun⟩ : ∃ out h', flver2DecodeMesh (oneBufferModel onePairLayout onePairVertex) 0 []
      = (.ok out, h') := by
    rcases hrun : flver2DecodeMesh (oneBufferModel onePairLayout onePairVertex) 0 [] with ⟨out | out, h'⟩
    · rw [hrun] at hok
      cases hok
    · exact ⟨out, h', rfl⟩
  have hsections : (oneBufferModel onePairLayout onePairVertex).meshSections 0 = .ok [(onePairVertex, onePairLayout)] :=
    rfl
  refine ⟨out, h', hrun,
    (decode_mesh_channels_iff hrun hsections (by decide) (by decide)).2 (.inr ⟨⟨?_, ?_⟩, ⟨?_, ?_⟩⟩)⟩
  all_goals decide +kernel

/-- One UV member that stores two pairs. -/
def twoPairLayout : BufferLayout where
  members := [⟨0, .float4, .uv, 0, 0⟩]

def twoPairVertex : VertexBuffer :=
  oneVertex [0, 0, 128, 63, 0, 0, 0, 64, 0, 0, 64, 64, 0, 0, 128, 64] (by decide)

/-- The decoded mesh has one array for the two pairs. -/
theorem twoPairVertex_not_kept :
    ∃ out h', flver2DecodeMesh (oneBufferModel twoPairLayout twoPairVertex) 0 [] = (.ok out, h') ∧
      (oneBufferModel twoPairLayout twoPairVertex).meshSections 0 = .ok [(twoPairVertex, twoPairLayout)] ∧
      uvChannel.Numbered [(twoPairVertex, twoPairLayout)] ∧ colorChannel.Numbered [(twoPairVertex, twoPairLayout)] ∧
      uvChannel.total [(twoPairVertex, twoPairLayout)] ≤ 8 ∧ colorChannel.total [(twoPairVertex, twoPairLayout)] ≤ 4 ∧
      ¬ uvChannel.Kept 2048 [(twoPairVertex, twoPairLayout)] 1 out := by
  have hone : (flver2DecodeMesh (oneBufferModel twoPairLayout twoPairVertex) 0 []).1.toOption.map
      (fun out => out.uvs.length) = some 1 := by
    decide +kernel
  rcases hrun : flver2DecodeMesh (oneBufferModel twoPairLayout twoPairVertex) 0 [] with ⟨out | out, h'⟩
  · rw [hrun] at hone
    cases hone
  · rw [hrun] at hone
    refine ⟨out, h', rfl, rfl, by decide, by decide, by decide, by decide, fun hkept => ?_⟩
    have htwo : out.uvs.length = 2 := hkept.arrays one_ne_zero
    have hlen : out.uvs.length = 1 := Option.some.inj hone
    omega

end SoulsFormats.Flver
