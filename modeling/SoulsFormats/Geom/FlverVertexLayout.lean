import SoulsFormats.Geom.FlverVertexRoundtrip

set_option autoImplicit false

/-! # Layouts of vertices

What each member was unpacked to stays in the vertex while the others are unpacked, and packing goes over the
members once more. Unpacking and packing a vertex therefore reproduces its members exactly where each of them can
be undone and the channels fit their arrays. -/

namespace SoulsFormats.Flver

open Bytes Fallible Undoing

/-! ## Counters -/

namespace LayoutMember

/-- The UV pairs that a member stores. -/
def uvPairs (m : LayoutMember) : Nat := if m.semantic = .uv then m.type.uvPairs else 0

/-- The colours that a member stores. -/
def colors (m : LayoutMember) : Nat := if m.semantic = .vertexColor then 1 else 0

/-- What the bytes of a member, and the factor, must be for packing to undo unpacking. -/
def Undoable (mem : List UInt8) (ctx : VertexContext) (m : LayoutMember) : Prop :=
  (m.semantic = .boneWeights → m.type = .short4 → WeightsInReach mem m.structOffset) ∧
    (m.semantic = .normal → NormalWReturns mem m.structOffset m.type) ∧
    (m.semantic = .uv → m.type.Scaled → ctx.uvFactor ≠ 0)

/-- The fourth component of a normal of floats is an integer. -/
def IntegralW (mem : List UInt8) (m : LayoutMember) : Prop :=
  m.semantic = .normal → m.type = .float4 → Inside mem (m.structOffset + 12) 4 → FloatIntegral mem (m.structOffset + 12)

/-- A member that takes part in the round trip. -/
structure Exact (mem : List UInt8) (m : LayoutMember) : Prop where
  plain : ¬ m.Special
  supported : m.Supported
  full : ¬ m.Lossy
  integral : m.IntegralW mem

/-- The bytes of two members have none in common. -/
def Apart (m m' : LayoutMember) : Prop :=
  m.structOffset + m.type.size ≤ m'.structOffset ∨ m'.structOffset + m'.type.size ≤ m.structOffset

end LayoutMember

open LayoutMember

/-- The vertex holds what the member was unpacked to, its channels from those positions on. -/
def Held (mem : List UInt8) (ctx : VertexContext) (v : DecodedVertex) (i j : Nat) (m : LayoutMember) : Prop :=
  match m.semantic with
  | .position => decodePosition mem m.structOffset m.type = .ok v.position
  | .boneWeights => decodeBoneWeights mem m.structOffset m.type = .ok v.boneWeights
  | .boneIndices => ∃ old, decodeBoneIndices mem m.structOffset old m.type = .ok v.boneIndices
  | .normal => ∃ old, decodeNormal mem m.structOffset old m.type = .ok (v.normal, v.normalW)
  | .uv => ∃ uvs, decodeUv mem m.structOffset ctx.uvFactor m.type = .ok uvs ∧ uvs.length = m.type.uvPairs ∧
      UvsFrom v i uvs
  | .tangent => decodeTangent mem m.structOffset m.type = .ok v.tangent
  | .bitangent => decodeBitangent mem m.structOffset m.type = .ok v.bitangent
  | .vertexColor => ∃ c, decodeColor mem m.structOffset m.type = .ok c ∧ v.colors[j]? = some c
  | .other _ => False

variable {mem : List UInt8} {ctx : VertexContext} {m : LayoutMember} {ms : List LayoutMember}
  {v v' v'' : DecodedVertex} {i j : Nat}

/-! ## Packing one member -/

/-- Packing prints the bytes the member was unpacked from exactly if it can be undone. -/
theorem encodeMember_held (hm : m.Exact mem) (hheld : Held mem ctx v i j m) :
    ∃ printed : Except SfError (List UInt8),
      encodeMember v ctx m i j = printed.map (fun bs => (bs, i + m.uvPairs, j + m.colors)) ∧
      (∀ bs, printed = .ok bs → bs.length = m.type.size) ∧
      (printed = .ok (slice mem m.structOffset m.type.size) ↔ m.Undoable mem ctx) := by
  obtain ⟨offset, t, semantic, index, special⟩ := m
  have hsupported := hm.supported
  have hfull := hm.full
  have hintegral := hm.integral
  -- Every case but the channels moves no counter.
  have hstay : ∀ x : Except SfError (List UInt8), (do let bs ← x; pure (bs, i, j))
      = x.map fun bs => (bs, i + 0, j + 0) := by
    intro x
    cases x <;> rfl
  cases semantic with
  | position =>
      have hu := @undone_position mem offset t hsupported fun ht => hfull (.inl ⟨rfl, ht⟩)
      refine ⟨encodePosition v.position t, hstay _, hu.length _, ?_⟩
      rw [hu.prints _ hheld]
      simp [Undoable]
  | boneWeights =>
      have hu := @undone_boneWeights mem offset t hsupported
      refine ⟨encodeBoneWeights v.boneWeights t, hstay _, hu.length _, ?_⟩
      rw [hu.prints _ hheld]
      simp [Undoable]
  | boneIndices =>
      obtain ⟨old, hold⟩ := hheld
      have hu := @undone_boneIndices mem offset t hsupported old
      refine ⟨encodeBoneIndices v.boneIndices t, hstay _, hu.length _, ?_⟩
      rw [hu.prints _ hold]
      simp [Undoable]
  | normal =>
      obtain ⟨old, hold⟩ := hheld
      have hu := @undone_normal mem offset t hsupported (fun ht => hintegral rfl ht) old
      refine ⟨encodeNormal v.normal v.normalW t, hstay _, hu.length (v.normal, v.normalW), ?_⟩
      rw [hu.prints _ hold]
      simp [Undoable]
  | uv =>
      obtain ⟨uvs, huvs, hlen, hfrom⟩ := hheld
      have hthree : t ≠ .float3 := fun ht => hfull (.inr (.inl ⟨rfl, ht⟩))
      have hu := @undone_decodeUv mem offset ctx.uvFactor t hsupported hthree
      refine ⟨writePairs (uvWriter ctx.uvFactor t) t.uvPairs uvs, ?_, hu.length _, ?_⟩
      · simp only [encodeMember, encodeUv_from hsupported hthree hlen hfrom]
        cases writePairs (uvWriter ctx.uvFactor t) t.uvPairs uvs <;> rfl
      · rw [hu.prints _ huvs]
        simp [Undoable]
  | tangent =>
      have hu := @undone_tangent mem offset t hsupported
      refine ⟨encodeTangent v.tangent t, hstay _, hu.length _, ?_⟩
      rw [hu.prints _ hheld]
      simp [Undoable]
  | bitangent => exact absurd (.inr (.inr rfl)) hfull
  | vertexColor =>
      obtain ⟨c, hc, hat⟩ := hheld
      have hu := @undone_color mem offset t hsupported
      refine ⟨encodeColor c t, ?_, hu.length _, ?_⟩
      · have hcolor : v.colorAt j = .ok c := by rw [DecodedVertex.colorAt, hat]
        simp only [encodeMember, hcolor]
        change (do let bs ← encodeColor c t; pure (bs, i, j + 1)) = _
        cases encodeColor c t <;> rfl
      · rw [hu.prints _ hc]
        simp [Undoable]
  | other code => exact absurd hsupported id

/-! ## Unpacking a layout -/

/-- Unpacking members of these semantics leaves the rest of the vertex, and the channels there were, as they are. -/
structure Kept (S : List LayoutSemantic) (v v' : DecodedVertex) : Prop where
  position : .position ∉ S → v'.position = v.position
  boneWeights : .boneWeights ∉ S → v'.boneWeights = v.boneWeights
  boneIndices : .boneIndices ∉ S → v'.boneIndices = v.boneIndices
  normal : .normal ∉ S → v'.normal = v.normal ∧ v'.normalW = v.normalW
  tangent : .tangent ∉ S → v'.tangent = v.tangent
  bitangent : .bitangent ∉ S → v'.bitangent = v.bitangent
  uvs : ∀ k < v.uvCount, v'.uvs[k]? = v.uvs[k]?
  colors : ∀ k < v.colorCount, v'.colors[k]? = v.colors[k]?
  moreUvs : v.uvCount ≤ v'.uvCount
  moreColors : v.colorCount ≤ v'.colorCount

namespace Kept

variable {S T : List LayoutSemantic}

theorem refl (S : List LayoutSemantic) (v : DecodedVertex) : Kept S v v := by
  constructor <;> simp

theorem trans (h : Kept S v v') (h' : Kept T v' v'') : Kept (S ++ T) v v'' := by
  constructor
  · intro hnot
    rw [List.mem_append, not_or] at hnot
    rw [h'.position hnot.2, h.position hnot.1]
  · intro hnot
    rw [List.mem_append, not_or] at hnot
    rw [h'.boneWeights hnot.2, h.boneWeights hnot.1]
  · intro hnot
    rw [List.mem_append, not_or] at hnot
    rw [h'.boneIndices hnot.2, h.boneIndices hnot.1]
  · intro hnot
    rw [List.mem_append, not_or] at hnot
    obtain ⟨hn, hw⟩ := h'.normal hnot.2
    rw [hn, hw]
    exact h.normal hnot.1
  · intro hnot
    rw [List.mem_append, not_or] at hnot
    rw [h'.tangent hnot.2, h.tangent hnot.1]
  · intro hnot
    rw [List.mem_append, not_or] at hnot
    rw [h'.bitangent hnot.2, h.bitangent hnot.1]
  · intro k hk
    rw [h'.uvs k (lt_of_lt_of_le hk h.moreUvs), h.uvs k hk]
  · intro k hk
    rw [h'.colors k (lt_of_lt_of_le hk h.moreColors), h.colors k hk]
  · exact h.moreUvs.trans h'.moreUvs
  · exact h.moreColors.trans h'.moreColors

theorem mono (h : Kept S v v') (hsub : S ⊆ T) : Kept T v v' where
  position hnot := h.position fun hmem => hnot (hsub hmem)
  boneWeights hnot := h.boneWeights fun hmem => hnot (hsub hmem)
  boneIndices hnot := h.boneIndices fun hmem => hnot (hsub hmem)
  normal hnot := h.normal fun hmem => hnot (hsub hmem)
  tangent hnot := h.tangent fun hmem => hnot (hsub hmem)
  bitangent hnot := h.bitangent fun hmem => hnot (hsub hmem)
  uvs := h.uvs
  colors := h.colors
  moreUvs := h.moreUvs
  moreColors := h.moreColors

end Kept

/-- A value stays held while members of other semantics, and further channels, are unpacked. -/
theorem Held.kept {S : List LayoutSemantic} (h : Held mem ctx v i j m) (hkept : Kept S v v')
    (hother : m.semantic ∈ S → m.semantic = .uv ∨ m.semantic = .vertexColor)
    (huvs : i + m.uvPairs ≤ v.uvCount) (hcolors : j + m.colors ≤ v.colorCount) : Held mem ctx v' i j m := by
  obtain ⟨offset, t, semantic, index, special⟩ := m
  have hnot : semantic ≠ .uv → semantic ≠ .vertexColor → semantic ∉ S := fun huv hcolor hmem =>
    (hother hmem).elim huv hcolor
  cases semantic with
  | position =>
      change _ = _ at h
      change _ = _
      rw [hkept.position (hnot nofun nofun)]
      exact h
  | boneWeights =>
      change _ = _
      rw [hkept.boneWeights (hnot nofun nofun)]
      exact h
  | boneIndices =>
      obtain ⟨old, hold⟩ := h
      exact ⟨old, by rw [hkept.boneIndices (hnot nofun nofun)]; exact hold⟩
  | normal =>
      obtain ⟨old, hold⟩ := h
      obtain ⟨hn, hw⟩ := hkept.normal (hnot nofun nofun)
      exact ⟨old, by rw [hn, hw]; exact hold⟩
  | uv =>
      obtain ⟨uvs, hdecode, hlen, hfrom⟩ := h
      refine ⟨uvs, hdecode, hlen, fun k uv hk => ?_⟩
      have hlt : k < uvs.length := (List.getElem?_eq_some_iff.1 hk).1
      have hcount : uvs.length = t.uvPairs := hlen
      have hpairs : LayoutMember.uvPairs ⟨offset, t, .uv, index, special⟩ = t.uvPairs := if_pos rfl
      rw [hkept.uvs (i + k) (by omega)]
      exact hfrom k uv hk
  | tangent =>
      change _ = _
      rw [hkept.tangent (hnot nofun nofun)]
      exact h
  | bitangent =>
      change _ = _
      rw [hkept.bitangent (hnot nofun nofun)]
      exact h
  | vertexColor =>
      obtain ⟨c, hdecode, hat⟩ := h
      have hone : LayoutMember.colors ⟨offset, t, .vertexColor, index, special⟩ = 1 := if_pos rfl
      exact ⟨c, hdecode, by rw [hkept.colors j (by omega)]; exact hat⟩
  | other code => exact h

/-- Appending channels keeps those there were, and holds the new ones. -/
theorem pushUvs_ok {uvs : List Vec2} (h : uvs.foldlM DecodedVertex.pushUv v = .ok v') :
    Kept [.uv] v v' ∧ UvsFrom v' v.uvCount uvs ∧ v'.uvCount = v.uvCount + uvs.length ∧
      v'.colorCount = v.colorCount ∧ (v.uvCount ≤ 8 → v'.uvCount ≤ 8) := by
  induction uvs generalizing v with
  | nil =>
      cases h
      exact ⟨Kept.refl _ _, fun k uv hk => absurd hk (by simp), rfl, rfl, id⟩
  | cons uv uvs ih =>
      rw [List.foldlM_cons] at h
      obtain ⟨v1, hpush, hrest⟩ := except_bind_eq_ok.1 h
      unfold DecodedVertex.pushUv at hpush
      split at hpush
      · rename_i hroom
        cases hpush
        obtain ⟨hkept, hfrom, hcount, hcolors, hfit⟩ := ih hrest
        have hfirst : Kept [.uv] v
            { v with uvs := v.uvs.set v.uvCount uv hroom, uvCount := v.uvCount + 1 } := by
          constructor <;> first | exact fun _ => rfl | exact fun _ => ⟨rfl, rfl⟩ | simp
          intro k hk
          rw [Vector.getElem?_set_ne _ (by omega)]
        refine ⟨(hfirst.trans hkept).mono (by simp), ?_, ?_, hcolors, fun _ => hfit hroom⟩
        · intro k uv' hk
          rcases k with _ | k
          · cases hk
            rw [Nat.add_zero, hkept.uvs _ (Nat.lt_succ_self _)]
            simp
          · have hnext := hfrom k uv' hk
            rwa [Nat.succ_add_eq_add_succ] at hnext
        · rw [hcount, List.length_cons]
          change v.uvCount + 1 + uvs.length = _
          omega
      · cases hpush

theorem pushUvs_fits {uvs : List Vec2} (h : v.uvCount + uvs.length ≤ 8) :
    ∃ v', uvs.foldlM DecodedVertex.pushUv v = .ok v' := by
  induction uvs generalizing v with
  | nil => exact ⟨v, rfl⟩
  | cons uv uvs ih =>
      rw [List.length_cons] at h
      have hroom : v.uvCount < 8 := by omega
      rw [List.foldlM_cons, DecodedVertex.pushUv, dif_pos hroom]
      exact ih (by change v.uvCount + 1 + _ ≤ 8; omega)

theorem decodeUv_length {p : Int} {factor : ℚ} {t : LayoutType} {uvs : List Vec2}
    (h : decodeUv mem p factor t = .ok uvs) : uvs.length = t.uvPairs := by
  unfold decodeUv at h
  split at h
  all_goals first
    | cases h
    | (obtain ⟨uv, -, hpair⟩ := except_bind_eq_ok.1 h
       first
         | (cases hpair; rfl)
         | (obtain ⟨uv', -, hpairs⟩ := except_bind_eq_ok.1 hpair
            cases hpairs
            rfl))

/-- What unpacking one member leaves in the vertex. -/
structure Unpacked (mem : List UInt8) (ctx : VertexContext) (m : LayoutMember) (v v' : DecodedVertex) : Prop where
  inside : Inside mem m.structOffset m.type.size
  held : Held mem ctx v' v.uvCount v.colorCount m
  kept : Kept [m.semantic] v v'
  uvCount : v'.uvCount = v.uvCount + m.uvPairs
  colorCount : v'.colorCount = v.colorCount + m.colors
  uvRoom : v.uvCount ≤ 8 → v'.uvCount ≤ 8
  colorRoom : v.colorCount ≤ 4 → v'.colorCount ≤ 4

/-- A member that fills one field of its own. -/
theorem unpacked_field (hinside : Inside mem m.structOffset m.type.size)
    (hheld : Held mem ctx v' v.uvCount v.colorCount m) (hkept : Kept [m.semantic] v v')
    (hchannel : m.semantic ≠ .uv ∧ m.semantic ≠ .vertexColor) (huv : v'.uvCount = v.uvCount)
    (hcolor : v'.colorCount = v.colorCount) : Unpacked mem ctx m v v' where
  inside := hinside
  held := hheld
  kept := hkept
  uvCount := by rw [huv, uvPairs, if_neg hchannel.1, Nat.add_zero]
  colorCount := by rw [hcolor, colors, if_neg hchannel.2, Nat.add_zero]
  uvRoom h := huv ▸ h
  colorRoom h := hcolor ▸ h

theorem vertexDecodeMember_ok (hm : m.Exact mem) (h : vertexDecodeMember mem ctx v m = .ok v') :
    Unpacked mem ctx m v v' := by
  obtain ⟨offset, t, semantic, index, special⟩ := m
  have hsupported := hm.supported
  have hfull := hm.full
  have hintegral := hm.integral
  unfold vertexDecodeMember at h
  dsimp only at h
  rw [if_neg hm.plain] at h
  cases semantic with
  | position =>
      obtain ⟨position, hdecode, hv⟩ := except_bind_eq_ok.1 h
      cases hv
      have hu := @undone_position mem offset t hsupported fun ht => hfull (.inl ⟨rfl, ht⟩)
      refine unpacked_field (hu.inside _ hdecode) hdecode ?_ ⟨nofun, nofun⟩ rfl rfl
      constructor <;> simp
  | boneWeights =>
      obtain ⟨weights, hdecode, hv⟩ := except_bind_eq_ok.1 h
      cases hv
      have hu := @undone_boneWeights mem offset t hsupported
      refine unpacked_field (hu.inside _ hdecode) hdecode ?_ ⟨nofun, nofun⟩ rfl rfl
      constructor <;> simp
  | boneIndices =>
      obtain ⟨indices, hdecode, hv⟩ := except_bind_eq_ok.1 h
      cases hv
      have hu := @undone_boneIndices mem offset t hsupported v.boneIndices
      refine unpacked_field (hu.inside _ hdecode) ⟨_, hdecode⟩ ?_ ⟨nofun, nofun⟩ rfl rfl
      constructor <;> simp
  | normal =>
      obtain ⟨normal, hdecode, hv⟩ := except_bind_eq_ok.1 h
      cases hv
      have hu := @undone_normal mem offset t hsupported (fun ht => hintegral rfl ht) v.normalW
      refine unpacked_field (hu.inside _ hdecode) ⟨_, hdecode⟩ ?_ ⟨nofun, nofun⟩ rfl rfl
      constructor <;> simp
  | uv =>
      obtain ⟨uvs, hdecode, hpush⟩ := except_bind_eq_ok.1 h
      have hthree : t ≠ .float3 := fun ht => hfull (.inr (.inl ⟨rfl, ht⟩))
      have hu := @undone_decodeUv mem offset ctx.uvFactor t hsupported hthree
      obtain ⟨hkept, hfrom, hcount, hcolors, hroom⟩ := pushUvs_ok hpush
      have hlen := decodeUv_length hdecode
      exact ⟨hu.inside _ hdecode, ⟨uvs, hdecode, hlen, hfrom⟩, hkept, by rw [hcount, hlen]; rfl, hcolors, hroom,
        fun h => hcolors ▸ h⟩
  | tangent =>
      obtain ⟨tangent, hdecode, hv⟩ := except_bind_eq_ok.1 h
      cases hv
      have hu := @undone_tangent mem offset t hsupported
      refine unpacked_field (hu.inside _ hdecode) hdecode ?_ ⟨nofun, nofun⟩ rfl rfl
      constructor <;> simp
  | bitangent => exact absurd (.inr (.inr rfl)) hfull
  | vertexColor =>
      obtain ⟨c, hdecode, hpush⟩ := except_bind_eq_ok.1 h
      have hu := @undone_color mem offset t hsupported
      unfold DecodedVertex.pushColor at hpush
      split at hpush
      · rename_i hroom
        cases hpush
        refine ⟨hu.inside _ hdecode, ⟨c, hdecode, by simp⟩, ?_, rfl, rfl, id, fun _ => hroom⟩
        constructor <;> first | exact fun _ => rfl | exact fun _ => ⟨rfl, rfl⟩ | simp
        intro k hk
        rw [Vector.getElem?_set_ne _ (by omega)]
      · cases hpush
  | other code => exact absurd hsupported id

/-- A member that can be undone is unpacked where its bytes are there and its channels fit. -/
theorem vertexDecodeMember_fits (hm : m.Exact mem) (hinside : Inside mem m.structOffset m.type.size)
    (hundo : m.Undoable mem ctx) (huvs : v.uvCount + m.uvPairs ≤ 8) (hcolors : v.colorCount + m.colors ≤ 4) :
    ∃ v', vertexDecodeMember mem ctx v m = .ok v' := by
  obtain ⟨offset, t, semantic, index, special⟩ := m
  have hsupported := hm.supported
  have hfull := hm.full
  have hintegral := hm.integral
  unfold vertexDecodeMember
  dsimp only
  rw [if_neg hm.plain]
  cases semantic with
  | position =>
      have hu := @undone_position mem offset t hsupported fun ht => hfull (.inl ⟨rfl, ht⟩)
      obtain ⟨x, hx⟩ := hu.reads hinside trivial
      exact ⟨_, by dsimp only; rw [hx]; rfl⟩
  | boneWeights =>
      obtain ⟨x, hx⟩ := (undone_boneWeights hsupported).reads hinside (hundo.1 rfl)
      exact ⟨_, by dsimp only; rw [hx]; rfl⟩
  | boneIndices =>
      obtain ⟨x, hx⟩ := (undone_boneIndices hsupported v.boneIndices).reads hinside trivial
      exact ⟨_, by dsimp only; rw [hx]; rfl⟩
  | normal =>
      have hu := @undone_normal mem offset t hsupported (fun ht => hintegral rfl ht) v.normalW
      obtain ⟨x, hx⟩ := hu.reads hinside (hundo.2.1 rfl)
      exact ⟨_, by dsimp only; rw [hx]; rfl⟩
  | uv =>
      have hthree : t ≠ .float3 := fun ht => hfull (.inr (.inl ⟨rfl, ht⟩))
      have hu := @undone_decodeUv mem offset ctx.uvFactor t hsupported hthree
      obtain ⟨uvs, hx⟩ := hu.reads hinside (hundo.2.2 rfl)
      have hlen := decodeUv_length hx
      obtain ⟨v', hpush⟩ := @pushUvs_fits v uvs (by rw [hlen]; exact huvs)
      exact ⟨v', by dsimp only; rw [hx]; exact hpush⟩
  | tangent =>
      obtain ⟨x, hx⟩ := (undone_tangent hsupported).reads hinside trivial
      exact ⟨_, by dsimp only; rw [hx]; rfl⟩
  | bitangent => exact absurd (.inr (.inr rfl)) hfull
  | vertexColor =>
      obtain ⟨c, hx⟩ := (undone_color hsupported).reads hinside trivial
      have hroom : v.colorCount < 4 := hcolors
      refine ⟨{ v with colors := v.colors.set v.colorCount c hroom, colorCount := v.colorCount + 1 }, ?_⟩
      dsimp only
      rw [hx]
      exact dif_pos hroom
  | other code => exact absurd hsupported id

/-- Every member's value is held, the channels from those positions on in the order of the members. -/
def HeldAll (mem : List UInt8) (ctx : VertexContext) (v : DecodedVertex) : Nat → Nat → List LayoutMember → Prop
  | _, _, [] => True
  | i, j, m :: ms => Held mem ctx v i j m ∧ HeldAll mem ctx v (i + m.uvPairs) (j + m.colors) ms

/-- No semantic but the channels occurs twice. -/
def UsedOnce (ms : List LayoutMember) : Prop :=
  ms.Pairwise fun m m' => m'.semantic = m.semantic → m.semantic = .uv ∨ m.semantic = .vertexColor

/-- The UV pairs of a list of members. -/
def uvPairsOf (ms : List LayoutMember) : Nat := (ms.map uvPairs).sum

def colorsOf (ms : List LayoutMember) : Nat := (ms.map colors).sum

/-- After unpacking, every member's value is held. -/
theorem unpack_ok (hms : ∀ m ∈ ms, m.Exact mem) (honce : UsedOnce ms)
    (h : ms.foldlM (vertexDecodeMember mem ctx) v = .ok v') :
    (∀ m ∈ ms, Inside mem m.structOffset m.type.size) ∧ HeldAll mem ctx v' v.uvCount v.colorCount ms ∧
      Kept (ms.map LayoutMember.semantic) v v' ∧ v'.uvCount = v.uvCount + uvPairsOf ms ∧
      v'.colorCount = v.colorCount + colorsOf ms ∧ (v.uvCount ≤ 8 → v'.uvCount ≤ 8) ∧
      (v.colorCount ≤ 4 → v'.colorCount ≤ 4) := by
  induction ms generalizing v with
  | nil =>
      cases h
      exact ⟨by simp, trivial, Kept.refl _ _, rfl, rfl, id, id⟩
  | cons m ms ih =>
      rw [List.foldlM_cons] at h
      obtain ⟨v1, hfirst, hrest⟩ := except_bind_eq_ok.1 h
      obtain ⟨hother, honce'⟩ := List.pairwise_cons.1 honce
      have hun := vertexDecodeMember_ok (hms m List.mem_cons_self) hfirst
      obtain ⟨hin, hheld, hkept, huvs, hcolors, huv, hcolor⟩ :=
        ih (fun m' hm' => hms m' (List.mem_cons_of_mem m hm')) honce' hrest
      have hstays : Held mem ctx v' v.uvCount v.colorCount m := by
        refine hun.held.kept hkept (fun hmem => ?_) hun.uvCount.ge hun.colorCount.ge
        obtain ⟨m', hm', hsame⟩ := List.mem_map.1 hmem
        exact hother m' hm' hsame
      rw [hun.uvCount, hun.colorCount] at hheld
      refine ⟨?_, ⟨hstays, hheld⟩, hun.kept.trans hkept, ?_, ?_, fun h => huv (hun.uvRoom h),
        fun h => hcolor (hun.colorRoom h)⟩
      · intro m' hm'
        rcases List.mem_cons.1 hm' with rfl | hm'
        · exact hun.inside
        · exact hin m' hm'
      · rw [huvs, hun.uvCount, uvPairsOf, uvPairsOf, List.map_cons, List.sum_cons, Nat.add_assoc]
      · rw [hcolors, hun.colorCount, colorsOf, colorsOf, List.map_cons, List.sum_cons, Nat.add_assoc]

/-- Unpacking succeeds where every member is there and can be undone, and the channels fit their arrays. -/
theorem unpack_fits (hms : ∀ m ∈ ms, m.Exact mem) (hin : ∀ m ∈ ms, Inside mem m.structOffset m.type.size)
    (hundo : ∀ m ∈ ms, m.Undoable mem ctx) (huvs : v.uvCount + uvPairsOf ms ≤ 8)
    (hcolors : v.colorCount + colorsOf ms ≤ 4) : ∃ v', ms.foldlM (vertexDecodeMember mem ctx) v = .ok v' := by
  induction ms generalizing v with
  | nil => exact ⟨v, rfl⟩
  | cons m ms ih =>
      rw [uvPairsOf, List.map_cons, List.sum_cons] at huvs
      rw [colorsOf, List.map_cons, List.sum_cons] at hcolors
      have hm := hms m List.mem_cons_self
      obtain ⟨v1, hfirst⟩ := vertexDecodeMember_fits (v := v) hm (hin m List.mem_cons_self)
        (hundo m List.mem_cons_self) (by omega) (by omega)
      have hun := vertexDecodeMember_ok hm hfirst
      rw [List.foldlM_cons, hfirst]
      refine ih (fun m' hm' => hms m' (List.mem_cons_of_mem m hm'))
        (fun m' hm' => hin m' (List.mem_cons_of_mem m hm')) (fun m' hm' => hundo m' (List.mem_cons_of_mem m hm')) ?_ ?_
      · rw [hun.uvCount, uvPairsOf]
        omega
      · rw [hun.colorCount, colorsOf]
        omega

/-! ## Packing a layout -/

variable {s s' : Encoding}

theorem storeAt_eq_ok {b b' bs : List UInt8} {p : Int} (h : storeAt b p bs = .ok b') :
    Inside b p bs.length ∧ b' = overwrite b p.toNat bs := by
  unfold storeAt at h
  split at h
  · rename_i hinside
    cases h
    exact ⟨hinside, rfl⟩
  · cases h

/-- What packing one member leaves in the vertex bytes. -/
structure Packed (mem : List UInt8) (ctx : VertexContext) (m : LayoutMember) (s s' : Encoding) : Prop where
  uvIdx : s'.uvIdx = s.uvIdx + m.uvPairs
  colorIdx : s'.colorIdx = s.colorIdx + m.colors
  length : s'.bytes.length = s.bytes.length
  elsewhere : ∀ q n, Inside s.bytes q n → q + n ≤ m.structOffset ∨ m.structOffset + m.type.size ≤ q →
    slice s'.bytes q n = slice s.bytes q n
  printed : slice s'.bytes m.structOffset m.type.size = slice mem m.structOffset m.type.size ↔ m.Undoable mem ctx

theorem vertexEncodeMember_ok (hm : m.Exact mem) (hheld : Held mem ctx v s.uvIdx s.colorIdx m)
    (h : vertexEncodeMember v ctx s m = .ok s') : Packed mem ctx m s s' := by
  obtain ⟨printed, hprinted, hlength, hundo⟩ := encodeMember_held hm hheld
  unfold vertexEncodeMember at h
  rw [if_neg hm.plain, hprinted] at h
  obtain ⟨x, hx, hrest⟩ := except_bind_eq_ok.1 h
  cases hbs : printed with
  | error e =>
      rw [hbs] at hx
      cases hx
  | ok bs =>
      rw [hbs] at hx
      cases hx
      obtain ⟨b, hstore, hs⟩ := except_bind_eq_ok.1 hrest
      obtain ⟨hinside, rfl⟩ := storeAt_eq_ok hstore
      cases hs
      have hlen := hlength bs hbs
      have hself : slice (overwrite s.bytes m.structOffset.toNat bs) m.structOffset m.type.size = bs := by
        have := slice_of_holds (holds_overwrite_self s.bytes bs m.structOffset.toNat)
        rwa [hlen] at this
      refine ⟨rfl, rfl, ?_, ?_, ?_⟩
      · rw [length_overwrite]
        exact max_eq_left hinside.2
      · intro q n hq hapart
        exact slice_overwrite hinside.1 hq (by rw [hlen]; exact hapart)
      · rw [hself, ← hundo, hbs]
        exact ⟨fun h => congrArg Except.ok h, fun h => Except.ok.inj h⟩

/-- A member that can be undone is packed where there is room for it. -/
theorem vertexEncodeMember_fits (hm : m.Exact mem) (hheld : Held mem ctx v s.uvIdx s.colorIdx m)
    (hundo : m.Undoable mem ctx) (hmem : Inside mem m.structOffset m.type.size)
    (hroom : Inside s.bytes m.structOffset m.type.size) : ∃ s', vertexEncodeMember v ctx s m = .ok s' := by
  obtain ⟨printed, hprinted, -, hiff⟩ := encodeMember_held hm hheld
  rw [hiff.2 hundo] at hprinted
  have hstore : storeAt s.bytes m.structOffset (slice mem m.structOffset m.type.size)
      = .ok (overwrite s.bytes m.structOffset.toNat (slice mem m.structOffset m.type.size)) := by
    unfold storeAt
    rw [length_slice hmem]
    exact if_pos hroom
  refine ⟨⟨s.uvIdx + m.uvPairs, s.colorIdx + m.colors, overwrite s.bytes m.structOffset.toNat
    (slice mem m.structOffset m.type.size)⟩, ?_⟩
  unfold vertexEncodeMember
  rw [if_neg hm.plain, hprinted]
  change (do let bytes ← storeAt s.bytes m.structOffset _; pure (⟨_, _, bytes⟩ : Encoding)) = _
  rw [hstore]
  rfl

/-- Packing members leaves the places apart from all of them as they are. -/
theorem pack_elsewhere (hms : ∀ m ∈ ms, m.Exact mem) (hheld : HeldAll mem ctx v s.uvIdx s.colorIdx ms)
    (h : ms.foldlM (vertexEncodeMember v ctx) s = .ok s') :
    s'.bytes.length = s.bytes.length ∧
      ∀ q n, Inside s.bytes q n → (∀ m ∈ ms, q + n ≤ m.structOffset ∨ m.structOffset + m.type.size ≤ q) →
        slice s'.bytes q n = slice s.bytes q n := by
  induction ms generalizing s with
  | nil =>
      cases h
      exact ⟨rfl, fun _ _ _ _ => rfl⟩
  | cons m ms ih =>
      rw [List.foldlM_cons] at h
      obtain ⟨s1, hfirst, hrest⟩ := except_bind_eq_ok.1 h
      have hpacked := vertexEncodeMember_ok (hms m List.mem_cons_self) hheld.1 hfirst
      have hheld' := hheld.2
      rw [← hpacked.uvIdx, ← hpacked.colorIdx] at hheld'
      obtain ⟨hlen, helse⟩ := ih (fun m' hm' => hms m' (List.mem_cons_of_mem m hm')) hheld' hrest
      refine ⟨hlen.trans hpacked.length, fun q n hq hapart => ?_⟩
      have hq1 : Inside s1.bytes q n := ⟨hq.1, by rw [hpacked.length]; exact hq.2⟩
      rw [helse q n hq1 fun m' hm' => hapart m' (List.mem_cons_of_mem m hm'),
        hpacked.elsewhere q n hq (hapart m List.mem_cons_self)]

/-- Packing reproduces the members exactly if each of them can be undone. -/
theorem pack_reproduces_iff (hms : ∀ m ∈ ms, m.Exact mem) (hheld : HeldAll mem ctx v s.uvIdx s.colorIdx ms)
    (hin : ∀ m ∈ ms, Inside mem m.structOffset m.type.size) (hlen : s.bytes.length = mem.length)
    (hapart : ms.Pairwise LayoutMember.Apart) :
    (∃ s', ms.foldlM (vertexEncodeMember v ctx) s = .ok s' ∧
      ∀ m ∈ ms, slice s'.bytes m.structOffset m.type.size = slice mem m.structOffset m.type.size) ↔
        ∀ m ∈ ms, m.Undoable mem ctx := by
  induction ms generalizing s with
  | nil => exact ⟨fun _ _ h => absurd h List.not_mem_nil, fun _ => ⟨s, rfl, by simp⟩⟩
  | cons m ms ih =>
      obtain ⟨hfar, hapart'⟩ := List.pairwise_cons.1 hapart
      have hm := hms m List.mem_cons_self
      have hms' := fun m' hm' => hms m' (List.mem_cons_of_mem m hm')
      have hin' := fun m' hm' => hin m' (List.mem_cons_of_mem m hm')
      have hplace : Inside s.bytes m.structOffset m.type.size :=
        ⟨(hin m List.mem_cons_self).1, by rw [hlen]; exact (hin m List.mem_cons_self).2⟩
      -- Behind the first member, its place is not touched any more.
      have hkeeps : ∀ s1, vertexEncodeMember v ctx s m = .ok s1 → ∀ s', ms.foldlM (vertexEncodeMember v ctx) s1 = .ok s' →
          slice s'.bytes m.structOffset m.type.size = slice s1.bytes m.structOffset m.type.size := by
        intro s1 hfirst s' hrest
        have hpacked := vertexEncodeMember_ok hm hheld.1 hfirst
        have hheld' := hheld.2
        rw [← hpacked.uvIdx, ← hpacked.colorIdx] at hheld'
        exact (pack_elsewhere hms' hheld' hrest).2 _ _ ⟨hplace.1, by rw [hpacked.length]; exact hplace.2⟩ hfar
      constructor
      · rintro ⟨s', hrun, hslices⟩
        rw [List.foldlM_cons] at hrun
        obtain ⟨s1, hfirst, hrest⟩ := except_bind_eq_ok.1 hrun
        have hpacked := vertexEncodeMember_ok hm hheld.1 hfirst
        have hheld' := hheld.2
        rw [← hpacked.uvIdx, ← hpacked.colorIdx] at hheld'
        have hundo := (ih hms' hheld' hin' (hpacked.length.trans hlen) hapart').1
          ⟨s', hrest, fun m' hm' => hslices m' (List.mem_cons_of_mem m hm')⟩
        intro m' hm'
        rcases List.mem_cons.1 hm' with rfl | hm'
        · exact hpacked.printed.1 ((hkeeps s1 hfirst s' hrest).symm.trans (hslices _ List.mem_cons_self))
        · exact hundo m' hm'
      · intro hundo
        obtain ⟨s1, hfirst⟩ := vertexEncodeMember_fits hm hheld.1 (hundo m List.mem_cons_self)
          (hin m List.mem_cons_self) hplace
        have hpacked := vertexEncodeMember_ok hm hheld.1 hfirst
        have hheld' := hheld.2
        rw [← hpacked.uvIdx, ← hpacked.colorIdx] at hheld'
        obtain ⟨s', hrest, hslices⟩ := (ih hms' hheld' hin' (hpacked.length.trans hlen) hapart').2 fun m' hm' =>
          hundo m' (List.mem_cons_of_mem m hm')
        refine ⟨s', by rw [List.foldlM_cons, hfirst]; exact hrest, fun m' hm' => ?_⟩
        rcases List.mem_cons.1 hm' with rfl | hm'
        · exact (hkeeps s1 hfirst s' hrest).trans (hpacked.printed.2 (hundo _ List.mem_cons_self))
        · exact hslices m' hm'

/-! ## The round trip -/

/-- Unpacking vertex bytes and packing the vertex into others reproduces the bytes of every member. -/
def Reproduces (layout : BufferLayout) (mem target : List UInt8) (ctx : VertexContext) : Prop :=
  ∃ v out, vertexDecodeOne layout mem ctx = .ok v ∧ vertexEncodeOne layout v ctx target = .ok out ∧
    ∀ m ∈ layout.members, slice out m.structOffset m.size = slice mem m.structOffset m.size

theorem LayoutMember.size_of_plain (h : ¬ m.Special) : m.size = m.type.size := if_neg h

/-- Packing undoes unpacking exactly where the members lie inside the vertex, the channels fit the arrays of a decoded
    vertex, no biased weight is stored as zero, the fourth component of a normal of floats comes from an `int32_t` and
    that of a normal of unsigned shorts is zero, and the UV factor is not. -/
theorem vertex_reproduces_iff {layout : BufferLayout} {target : List UInt8}
    (hplain : ∀ m ∈ layout.members, ¬ m.Special) (hsupported : ∀ m ∈ layout.members, m.Supported)
    (hfull : ∀ m ∈ layout.members, ¬ m.Lossy) (hintegral : ∀ m ∈ layout.members, m.IntegralW mem)
    (honce : UsedOnce layout.members) (hapart : layout.members.Pairwise LayoutMember.Apart)
    (htarget : target.length = mem.length) :
    Reproduces layout mem target ctx ↔
      (∀ m ∈ layout.members, Inside mem m.structOffset m.size) ∧ uvPairsOf layout.members ≤ 8 ∧
        colorsOf layout.members ≤ 4 ∧ ∀ m ∈ layout.members, m.Undoable mem ctx := by
  have hms : ∀ m ∈ layout.members, m.Exact mem := fun m hm =>
    ⟨hplain m hm, hsupported m hm, hfull m hm, hintegral m hm⟩
  have hsize : ∀ m ∈ layout.members, m.size = m.type.size := fun m hm => LayoutMember.size_of_plain (hplain m hm)
  constructor
  · rintro ⟨v, out, hunpack, hpack, hslices⟩
    obtain ⟨hin, hheld, -, huvs, hcolors, huv, hcolor⟩ := unpack_ok hms honce hunpack
    obtain ⟨s', hrun, hout⟩ := except_bind_eq_ok.1 hpack
    cases hout
    have hfits : uvPairsOf layout.members ≤ 8 ∧ colorsOf layout.members ≤ 4 := by
      have huv8 := huv (Nat.zero_le 8)
      have hcolor4 := hcolor (Nat.zero_le 4)
      rw [huvs] at huv8
      rw [hcolors] at hcolor4
      exact ⟨by simpa [DecodedVertex.zero] using huv8, by simpa [DecodedVertex.zero] using hcolor4⟩
    refine ⟨fun m hm => hsize m hm ▸ hin m hm, hfits.1, hfits.2, ?_⟩
    refine (pack_reproduces_iff (s := ⟨0, 0, target⟩) hms hheld hin htarget hapart).1 ⟨s', hrun, fun m hm => ?_⟩
    have hslice := hslices m hm
    rwa [hsize m hm] at hslice
  · rintro ⟨hin, huvs, hcolors, hundo⟩
    have hin' : ∀ m ∈ layout.members, Inside mem m.structOffset m.type.size := fun m hm => hsize m hm ▸ hin m hm
    obtain ⟨v, hunpack⟩ := unpack_fits (v := .zero) hms hin' hundo (by simpa [DecodedVertex.zero] using huvs)
      (by simpa [DecodedVertex.zero] using hcolors)
    obtain ⟨-, hheld, -⟩ := unpack_ok hms honce hunpack
    obtain ⟨s', hrun, hslices⟩ :=
      (pack_reproduces_iff (s := ⟨0, 0, target⟩) hms hheld hin' htarget hapart).2 hundo
    refine ⟨v, s'.bytes, hunpack, by rw [vertexEncodeOne, hrun]; rfl, fun m hm => ?_⟩
    rw [hsize m hm]
    exact hslices m hm

/-- A vertex with a position, a normal of bytes, a UV pair of shorts and a colour. -/
def sampleLayout : BufferLayout where
  members := [⟨0, .float3, .position, 0, 0⟩, ⟨12, .ubyte4, .normal, 0, 0⟩, ⟨16, .short2, .uv, 0, 0⟩,
    ⟨20, .color, .vertexColor, 0, 0⟩]

def sampleVertex : List UInt8 :=
  [0, 0, 128, 63, 0, 0, 0, 64, 0, 0, 64, 64, 127, 254, 0, 3, 0, 4, 0, 252, 255, 128, 0, 255]

theorem sampleVertex_reproduced : Reproduces sampleLayout sampleVertex (List.replicate 24 0) ⟨1024⟩ := by
  have hintegral : ∀ m ∈ sampleLayout.members, m.IntegralW sampleVertex := by simp [sampleLayout, IntegralW]
  have honce : UsedOnce sampleLayout.members := by simp [UsedOnce, sampleLayout]
  have hapart : sampleLayout.members.Pairwise LayoutMember.Apart := by simp [sampleLayout, LayoutMember.Apart, LayoutType.size]
  have hundo : ∀ m ∈ sampleLayout.members, m.Undoable sampleVertex ⟨1024⟩ := by
    simp [sampleLayout, Undoable, NormalWReturns]
  have hin : ∀ m ∈ sampleLayout.members, Inside sampleVertex m.structOffset m.size := by decide
  exact (vertex_reproduces_iff (by decide) (by decide) (by decide) hintegral honce hapart (by decide)).2
    ⟨hin, by decide, by decide, hundo⟩

/-- A normal of unsigned shorts, the layout of one game, with a fourth component of one. -/
def normalLayout : BufferLayout where
  members := [⟨0, .ushort4, .normal, 0, 0⟩]

def normalVertex : List UInt8 := [0xFF, 0x7F, 0, 0, 0, 0, 1, 0]

/-- The fourth component comes back as the greatest short. -/
theorem normalVertex_not_reproduced :
    (∀ m ∈ normalLayout.members, ¬ m.Special ∧ m.Supported ∧ ¬ m.Lossy ∧ m.IntegralW normalVertex) ∧
      UsedOnce normalLayout.members ∧ normalLayout.members.Pairwise LayoutMember.Apart ∧
      (normalLayout.members.map LayoutMember.size).sum = normalVertex.length ∧
      ¬ Reproduces normalLayout normalVertex (List.replicate 8 0) ⟨1024⟩ := by
  refine ⟨by simp [normalLayout, LayoutMember.Special, Supported, Lossy, IntegralW], by simp [UsedOnce, normalLayout],
    by simp [normalLayout], by decide, ?_⟩
  rintro ⟨v, out, hunpack, hpack, hslices⟩
  have hrun : (do
      let v ← vertexDecodeOne normalLayout normalVertex ⟨1024⟩
      vertexEncodeOne normalLayout v ⟨1024⟩ (List.replicate 8 0)) = .ok [0xFF, 0x7F, 0, 0, 0, 0, 0xFF, 0x7F] := by
    decide +kernel
  have hback : (do
      let v ← vertexDecodeOne normalLayout normalVertex ⟨1024⟩
      vertexEncodeOne normalLayout v ⟨1024⟩ (List.replicate 8 0)) = .ok out :=
    except_bind_eq_ok.2 ⟨v, hunpack, hpack⟩
  obtain rfl : out = [0xFF, 0x7F, 0, 0, 0, 0, 0xFF, 0x7F] := Except.ok.inj (hback.symm.trans hrun)
  exact absurd (hslices _ List.mem_cons_self) (by decide)

end SoulsFormats.Flver
