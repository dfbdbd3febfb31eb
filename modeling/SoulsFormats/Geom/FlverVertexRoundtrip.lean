import SoulsFormats.Geom.FlverVertex
import SoulsFormats.Library.Undoing

set_option autoImplicit false

/-! # Packing a vertex after unpacking it

Every supported kind of member is a reader of its bytes and a writer that undoes it, except where the two ladders
of `flver2_vertex.c` disagree. The members of a layout are then taken together: a vertex holds what each of them
was unpacked to, and packing goes over disjoint places. -/

namespace SoulsFormats.Flver

open Bytes Fallible Undoing

variable {mem : List UInt8} {p : Int}

/-! ## Integers and floats -/

theorem bytesAt_eq_ok {n : Nat} {bs : List UInt8} :
    bytesAt mem p n = .ok bs ↔ Inside mem p n ∧ bs = slice mem p n := by
  unfold bytesAt
  split
  · rename_i h
    constructor
    · intro hbs
      cases hbs
      exact ⟨h, rfl⟩
    · rintro ⟨-, rfl⟩
      rfl
  · rename_i h
    constructor
    · intro hbs
      cases hbs
    · intro hbs
      exact absurd hbs.1 h

theorem bytesAt_inside {n : Nat} (h : Inside mem p n) : bytesAt mem p n = .ok (slice mem p n) :=
  bytesAt_eq_ok.2 ⟨h, rfl⟩

namespace IntType

variable (t : IntType)

theorem length_write (v : Int) : (t.write v).length = t.bytes := length_leBytes ..

/-- A value that was read has its type, and is spelled by its bytes. -/
theorem read_eq_ok {n : Int} (h : t.read mem p = .ok n) :
    Inside mem p t.bytes ∧ t.lo ≤ n ∧ n ≤ t.hi ∧ t.write n = slice mem p t.bytes := by
  obtain ⟨bs, hbs, hn⟩ := except_bind_eq_ok.1 h
  obtain ⟨hinside, rfl⟩ := bytesAt_eq_ok.1 hbs
  have hlen := length_slice hinside
  have hlt : (leNat (slice mem p t.bytes) : Int) < 256 ^ t.bytes := by
    have := leNat_lt (slice mem p t.bytes)
    rw [hlen] at this
    exact_mod_cast this
  have hback : leBytes t.bytes (leNat (slice mem p t.bytes)) = slice mem p t.bytes := by
    have := leBytes_leNat (slice mem p t.bytes)
    rwa [hlen] at this
  have hwide := t.wide
  have hhi : t.hi = t.lo + 256 ^ t.bytes - 1 := rfl
  cases hn
  refine ⟨hinside, ?_, ?_, ?_⟩
  · split <;> omega
  · split <;> omega
  · rw [write]
    split
    · rw [Int.emod_eq_of_lt (by omega) hlt, Int.toNat_natCast, hback]
    · rw [Int.sub_emod_right, Int.emod_eq_of_lt (by omega) hlt, Int.toNat_natCast, hback]

theorem read_inside (h : Inside mem p t.bytes) : ∃ n, t.read mem p = .ok n := by
  rw [read, bytesAt_inside h]
  exact ⟨_, rfl⟩

/-- An integer that is stored as it was read. -/
theorem undone_store : Undone mem p t.bytes (t.read mem p) t.store True where
  inside _ h := (t.read_eq_ok h).1
  reads h _ := t.read_inside h
  length := by
    rintro v bs ⟨⟩
    exact t.length_write v
  prints := by
    intro n h
    simp [store, (t.read_eq_ok h).2.2.2]

end IntType

theorem truncateTo_intCast (lo hi n : Int) :
    truncateTo lo hi (some (n : ℚ)) = if lo ≤ n ∧ n ≤ hi then .ok n else .error .undefinedBehaviour := by
  simp [truncateTo]

theorem roundAway_intCast (n : Int) : roundAway (n : ℚ) = n := by
  have hhalf : ⌊(1 / 2 : ℚ)⌋ = 0 := by norm_num
  unfold roundAway
  split
  · rw [Int.floor_intCast_add, hhalf, add_zero]
  · rw [← Int.cast_neg, Int.floor_intCast_add, hhalf, add_zero, neg_neg]

namespace IntType

variable (t : IntType)

theorem writeRounded_intCast (n : Int) :
    t.writeRounded (some (n : ℚ))
      = if t.lo ≤ n ∧ n ≤ t.hi then .ok (t.write n) else .error .undefinedBehaviour := by
  rw [writeRounded, Option.map_some, roundAway_intCast, truncateTo_intCast]
  split <;> rfl

theorem length_writeRounded {q : Option ℚ} {bs : List UInt8} (h : t.writeRounded q = .ok bs) :
    bs.length = t.bytes := by
  obtain ⟨n, -, hbs⟩ := except_bind_eq_ok.1 h
  cases hbs
  exact t.length_write n

/-- What is read through a function that rounding undoes. -/
theorem undone_rounded {f : Int → Scalar} {g : Scalar → Option ℚ} {G : Prop}
    (hg : ∀ n, G → g (f n) = some (n : ℚ)) (hG : ∀ n, ¬ G → g (f n) = none) :
    Undone mem p t.bytes (do let n ← t.read mem p; pure (f n)) (fun s => t.writeRounded (g s)) G where
  inside := by
    intro s h
    obtain ⟨n, hn, -⟩ := except_bind_eq_ok.1 h
    exact (t.read_eq_ok hn).1
  reads := by
    intro h _
    obtain ⟨n, hn⟩ := t.read_inside h
    exact ⟨f n, by rw [hn]; rfl⟩
  length _ _ h := t.length_writeRounded h
  prints := by
    intro s h
    obtain ⟨n, hn, hs⟩ := except_bind_eq_ok.1 h
    cases hs
    obtain ⟨-, hlo, hhi, hwrite⟩ := t.read_eq_ok hn
    by_cases hyes : G
    · simp [hg n hyes, writeRounded_intCast, hlo, hhi, hwrite, hyes]
    · have herror : t.writeRounded none = .error .undefinedBehaviour := rfl
      simp [hG n hyes, herror, hyes]

/-- A normalised component. -/
theorem undone_norm {scale bias : ℚ} (hscale : scale ≠ 0) :
    Undone mem p t.bytes (t.readNorm scale bias mem p) (t.writeNorm scale bias) True := by
  refine t.undone_rounded (fun n _ => ?_) (fun n h => absurd trivial h)
  have hback : (n - bias) / scale * scale + bias = n := by
    rw [div_mul_cancel₀ _ hscale, sub_add_cancel]
  simp [Scalar.value, hback]

end IntType

theorem length_writeF32 (s : Scalar) : (writeF32 s).length = 4 := length_leBytes ..

theorem undone_f32 : Undone mem p 4 (readF32 mem p) storeF32 True where
  inside := by
    intro s h
    obtain ⟨bs, hbs, -⟩ := except_bind_eq_ok.1 h
    exact (bytesAt_eq_ok.1 hbs).1
  reads := by
    intro h _
    rw [readF32, bytesAt_inside h]
    exact ⟨_, rfl⟩
  length := by
    rintro s bs ⟨⟩
    exact length_writeF32 s
  prints := by
    intro s h
    obtain ⟨bs, hbs, hs⟩ := except_bind_eq_ok.1 h
    obtain ⟨hinside, rfl⟩ := bytesAt_eq_ok.1 hbs
    cases hs
    have hlen := length_slice hinside
    have hlt := leNat_lt (slice mem p 4)
    have hback := leBytes_leNat (slice mem p 4)
    rw [hlen] at hlt hback
    simp [storeF32, writeF32, Scalar.bits, UInt32.toNat_ofNat_of_lt' (show _ < UInt32.size from hlt), hback]

/-- A UV component divided by the factor, which must not be zero. -/
theorem undone_scaled {factor : ℚ} :
    Undone mem p 2 (readScaled mem factor p) (writeScaled factor) (factor ≠ 0) := by
  refine i16.undone_rounded (fun n h => ?_) (fun n h => ?_)
  · simp [Scalar.quotient, Scalar.value, h]
  · have hzero : factor = 0 := not_not.1 h
    have hnone : (Scalar.quotient n factor).value = none := by
      unfold Scalar.quotient
      rw [if_pos hzero]
      split_ifs <;> rfl
    simp [hnone]

/-- A biased weight, which the writer's threshold misses where the stored word is zero. -/
theorem undone_biasedWeight :
    Undone mem p 2 (readBiasedWeight mem p) writeBiasedWeight (slice mem p 2 ≠ [0, 0]) where
  inside := by
    intro s h
    obtain ⟨n, hn, -⟩ := except_bind_eq_ok.1 h
    exact (u16.read_eq_ok hn).1
  reads := by
    intro h _
    obtain ⟨n, hn⟩ := u16.read_inside h
    exact ⟨_, by rw [readBiasedWeight, hn]; rfl⟩
  length := by
    intro s bs h
    obtain ⟨n, -, hbs⟩ := except_bind_eq_ok.1 h
    cases hbs
    exact u16.length_write n
  prints := by
    intro s h
    obtain ⟨n, hn, hs⟩ := except_bind_eq_ok.1 h
    cases hs
    obtain ⟨-, hlo, hhi, hwrite⟩ := u16.read_eq_ok hn
    have hlo' : 0 ≤ n := hlo
    have hhi' : n ≤ 65535 := hhi
    have hzero : slice mem p 2 ≠ [0, 0] ↔ n ≠ 0 := by
      rw [not_iff_not]
      constructor
      · intro hslice
        have hword : leNat (u16.write n) = 0 := by
          rw [hwrite]
          exact congrArg leNat hslice
        rw [IntType.write, leNat_leBytes] at hword
        have hmod : (n % 65536).toNat % 65536 = 0 := hword
        omega
      · rintro rfl
        exact hwrite.symm
    -- The weight behind the bias; a word is brought back unless it was moved exactly onto the threshold.
    set weight : Int := if 0x8000 ≤ n then n - 0x8000 else n + 0x8000 with hweight
    have hexact : ((weight : ℚ) / 65535 * 65535) = weight := div_mul_cancel₀ _ (by norm_num)
    have hround : roundAway ((weight : ℚ) / 65535 * 65535) = weight := by rw [hexact, roundAway_intCast]
    rw [hzero]
    simp only [writeBiasedWeight, Scalar.value, Option.map_some, hround, truncateTo_intCast]
    have hu16 : u16.lo = 0 ∧ u16.hi = 65535 := ⟨rfl, rfl⟩
    rcases eq_or_ne n 0 with rfl | hne
    · have hover : weight = 0x8000 := by simp [hweight]
      simp only [hover, hu16]
      simp [bind, Except.bind]
    · have hback : (if 0x8000 < weight then weight - 0x8000 else weight + 0x8000) = n := by
        rw [hweight]
        split_ifs <;> omega
      have hfit : u16.lo ≤ n ∧ n ≤ u16.hi := ⟨hlo, hhi⟩
      rw [hback, if_pos hfit]
      have hwrites : (do let weight ← (Except.ok n : Except SfError Int); pure (u16.write weight))
          = .ok (slice mem p 2) := congrArg Except.ok hwrite
      exact iff_of_true hwrites hne

/-! ## Vectors -/

section

variable {α : Type} {read : Int → Except SfError α} {write : α → Except SfError (List UInt8)} {G : Int → Prop} {n : Nat}

theorem undone_two (h : ∀ p, Undone mem p n (read p) write (G p)) :
    Undone mem p (n + n) (readTwo read p n) (fun x => writeTwo write x.1 x.2) (G p ∧ G (p + n)) :=
  (h p).seq (h (p + n))

theorem undone_three (h : ∀ p, Undone mem p n (read p) write (G p)) :
    Undone mem p (n + (n + n)) (readThree read p n) (fun x => writeThree write x.1 x.2.1 x.2.2)
      (G p ∧ G (p + n) ∧ G (p + n + n)) :=
  (h p).seq (undone_two h)

theorem undone_four (h : ∀ p, Undone mem p n (read p) write (G p)) :
    Undone mem p (n + (n + (n + n))) (readFour read p n)
      (fun x => writeFour write x.1 x.2.1 x.2.2.1 x.2.2.2)
      (G p ∧ G (p + n) ∧ G (p + n + n) ∧ G (p + n + n + n)) :=
  (h p).seq (undone_three h)

end

section

variable {read : Int → Except SfError Scalar} {write : Scalar → Except SfError (List UInt8)} {n : Nat}

theorem undone_xyz (h : ∀ p, Undone mem p n (read p) write True) :
    Undone mem p (n + (n + n)) (readXyz read p n) (writeXyz write) True :=
  ((undone_three h).congr (by simp)).map (fun _ => rfl) fun v => (@undone_three mem p _ _ _ _ _ h).length (v.x, v.y, v.z)

theorem undone_xyzw (h : ∀ p, Undone mem p n (read p) write True) :
    Undone mem p (n + (n + (n + n))) (readXyzw read p n) (writeXyzw write) True :=
  ((undone_four h).congr (by simp)).map (fun _ => rfl) fun v =>
    (@undone_four mem p _ _ _ _ _ h).length (v.x, v.y, v.z, v.w)

theorem undone_rgba (h : ∀ p, Undone mem p n (read p) write True) :
    Undone mem p (n + (n + (n + n))) (readRgba read p n) (writeRgba write) True :=
  ((undone_four h).congr (by simp)).map (fun _ => rfl) fun c =>
    (@undone_four mem p _ _ _ _ _ h).length (c.r, c.g, c.b, c.a)

theorem undone_uv {G : Int → Prop} (h : ∀ p, Undone mem p n (read p) write (G p)) :
    Undone mem p (n + n) (readUv read p n) (writeUv write) (G p ∧ G (p + n)) :=
  (undone_two h).map (fun _ => rfl) fun uv => (@undone_two mem p _ _ _ _ _ h).length (uv.x, uv.y)

end

/-! ## Members -/

/-- The pairs of a semantic and a type that both ladders support. -/
def LayoutMember.Supported (m : LayoutMember) : Prop :=
  match m.semantic with
  | .position => m.type ∈ [.float3, .float4]
  | .boneWeights => m.type ∈ [.color, .ubyte4Norm, .short4, .short4Norm]
  | .boneIndices => m.type ∈ [.ubyte4, .ushort2, .ushort4, .byte4E, .byte4]
  | .normal => m.type ∈ [.float3, .float4, .color, .ubyte4, .byte4, .ubyte4Norm, .short4Norm, .half4, .byte4E, .ushort4]
  | .uv => m.type ∈ [.float2, .float3, .float4, .color, .ubyte4, .byte4, .ubyte4Norm, .short2, .half2, .short4, .half4]
  | .tangent => m.type ∈ [.float4, .color, .ubyte4, .ubyte4Norm, .byte4Norm, .short4Norm, .byte4E]
  | .bitangent => m.type ∈ [.color, .ubyte4, .ubyte4Norm, .byte4E]
  | .vertexColor => m.type ∈ [.float4, .color, .ubyte4Norm]
  | .other _ => False

/-- The members of which unpacking drops a component. -/
def LayoutMember.Lossy (m : LayoutMember) : Prop :=
  m.semantic = .position ∧ m.type = .float4 ∨ m.semantic = .uv ∧ m.type = .float3 ∨ m.semantic = .bitangent

instance (m : LayoutMember) : Decidable m.Supported := by
  unfold LayoutMember.Supported
  split <;> infer_instance

instance (m : LayoutMember) : Decidable m.Lossy := by
  unfold LayoutMember.Lossy
  infer_instance

theorem undone_position {t : LayoutType} (ht : t ∈ [LayoutType.float3, .float4]) (hfull : t ≠ .float4) :
    Undone mem p t.size (decodePosition mem p t) (fun v => encodePosition v t) True := by
  have hthree : t = .float3 := by simpa [hfull] using ht
  subst hthree
  exact undone_xyz fun _ => undone_f32

/-- Four values as an array. -/
theorem undone_array {α : Type} {read : Int → Except SfError α} {write : α → Except SfError (List UInt8)}
    {G : Int → Prop} {n : Nat} (h : ∀ p, Undone mem p n (read p) write (G p)) :
    Undone mem p (n + (n + (n + n))) (do let (a, b, c, d) ← readFour read p n; pure (⟨a, b, c, d⟩ : Four α))
      (fun w => writeFour write w.v0 w.v1 w.v2 w.v3) (G p ∧ G (p + n) ∧ G (p + n + n) ∧ G (p + n + n + n)) :=
  (undone_four h).map (fun _ => rfl) fun w => (@undone_four mem p _ _ _ _ _ h).length (w.v0, w.v1, w.v2, w.v3)

/-- No weight of an array of biased ones is stored as zero. -/
def WeightsInReach (mem : List UInt8) (p : Int) : Prop := ∀ j ∈ [0, 2, 4, 6], slice mem (p + j) 2 ≠ [0, 0]

theorem undone_boneWeights {t : LayoutType} (ht : t ∈ [LayoutType.color, .ubyte4Norm, .short4, .short4Norm]) :
    Undone mem p t.size (decodeBoneWeights mem p t) (fun w => encodeBoneWeights w t)
      (t = .short4 → WeightsInReach mem p) := by
  simp only [List.mem_cons, List.not_mem_nil, or_false] at ht
  rcases ht with rfl | rfl | rfl | rfl
  · exact (undone_array fun _ => i8.undone_norm (by norm_num)).congr (by simp)
  · exact (undone_array fun _ => u8.undone_norm (by norm_num)).congr (by simp)
  · exact (undone_array fun _ => undone_biasedWeight).congr (by simp [WeightsInReach, add_assoc])
  · exact (undone_array fun _ => i16.undone_norm (by norm_num)).congr (by simp)

theorem undone_boneIndices {t : LayoutType} (ht : t ∈ [LayoutType.ubyte4, .ushort2, .ushort4, .byte4E, .byte4])
    (old : Four Int) :
    Undone mem p t.size (decodeBoneIndices mem p old t) (fun w => encodeBoneIndices w t) True := by
  simp only [List.mem_cons, List.not_mem_nil, or_false] at ht
  rcases ht with rfl | rfl | rfl | rfl | rfl
  · exact (undone_array fun _ => u8.undone_store).congr (by simp)
  · refine ((undone_two fun _ => u16.undone_store).congr (by simp)).map (fun _ => rfl) fun w => ?_
    exact (@undone_two mem p _ _ _ _ _ fun _ => u16.undone_store).length (w.v0, w.v1)
  · exact (undone_array fun _ => u16.undone_store).congr (by simp)
  · exact (undone_array fun _ => u8.undone_store).congr (by simp)
  · exact (undone_array fun _ => u8.undone_store).congr (by simp)

theorem undone_tangent {t : LayoutType}
    (ht : t ∈ [LayoutType.float4, .color, .ubyte4, .ubyte4Norm, .byte4Norm, .short4Norm, .byte4E]) :
    Undone mem p t.size (decodeTangent mem p t) (fun v => encodeTangent v t) True := by
  have hbyte : ∀ {p}, Undone mem p 4 (readByteNormXyzw mem p) writeByteNormXyzw True :=
    undone_xyzw fun _ => u8.undone_norm (by norm_num)
  simp only [List.mem_cons, List.not_mem_nil, or_false] at ht
  rcases ht with rfl | rfl | rfl | rfl | rfl | rfl | rfl
  · exact undone_xyzw fun _ => undone_f32
  · exact hbyte
  · exact hbyte
  · exact hbyte
  · have hnorm : ∀ p, Undone mem p 1 (i8.readNorm 127 0 mem p) (i8.writeNorm 127 0) True := fun _ =>
      i8.undone_norm (by norm_num)
    refine ((undone_four hnorm).congr (by simp)).map (fun _ => rfl) fun v => ?_
    exact (@undone_four mem p _ _ _ _ _ hnorm).length (v.w, v.z, v.y, v.x)
  · exact undone_xyzw fun _ => i16.undone_norm (by norm_num)
  · exact hbyte

theorem undone_color {t : LayoutType} (ht : t ∈ [LayoutType.float4, .color, .ubyte4Norm]) :
    Undone mem p t.size (decodeColor mem p t) (fun c => encodeColor c t) True := by
  simp only [List.mem_cons, List.not_mem_nil, or_false] at ht
  rcases ht with rfl | rfl | rfl
  · exact undone_rgba fun _ => undone_f32
  · exact undone_rgba fun _ => u8.undone_norm (by norm_num)
  · exact undone_rgba fun _ => u8.undone_norm (by norm_num)

/-! ### Normals -/

/-- The float at `p` is an integer. -/
def FloatIntegral (mem : List UInt8) (p : Int) : Prop :=
  ∃ n : Int, Binary32.value (leNat (slice mem p 4)) = some (n : ℚ)

/-- The float at `p` is what comes back from an `int32_t`: not a negative zero, and not out of range. -/
def FloatFromInt32 (mem : List UInt8) (p : Int) : Prop :=
  slice mem p 4 ≠ [0, 0, 0, 0x80] ∧
    ∃ n : Int, Binary32.value (leNat (slice mem p 4)) = some (n : ℚ) ∧ -2 ^ 31 ≤ n ∧ n ≤ 2 ^ 31 - 1

/-- A float goes through the fourth component of a normal, which is an integer. -/
theorem undone_truncated (hint : Inside mem p 4 → FloatIntegral mem p) :
    Undone mem p 4 (readTruncated mem p) (fun w => .ok (writeF32 (.exact w))) (FloatFromInt32 mem p) where
  inside := by
    intro w h
    obtain ⟨s, hs, -⟩ := except_bind_eq_ok.1 h
    exact undone_f32.inside s hs
  reads := by
    rintro h ⟨-, n, hn, hlo, hhi⟩
    have hlt := leNat_lt (slice mem p 4)
    rw [length_slice h] at hlt
    have hvalue : (Scalar.stored (UInt32.ofNat (leNat (slice mem p 4)))).value = some (n : ℚ) := by
      rw [Scalar.value, UInt32.toNat_ofNat_of_lt' (show _ < UInt32.size from hlt), hn]
    refine ⟨n, ?_⟩
    rw [readTruncated, readF32, bytesAt_inside h]
    change truncateTo _ _ (Scalar.stored (UInt32.ofNat (leNat (slice mem p 4)))).value = _
    rw [hvalue, truncateTo_intCast, if_pos ⟨hlo, hhi⟩]
  length := by
    rintro w bs ⟨⟩
    exact length_writeF32 _
  prints := by
    intro w h
    obtain ⟨s, hs, htrunc⟩ := except_bind_eq_ok.1 h
    obtain ⟨bs, hbs, heq⟩ := except_bind_eq_ok.1 hs
    obtain ⟨hinside, rfl⟩ := bytesAt_eq_ok.1 hbs
    cases heq
    obtain ⟨n, hn⟩ := hint hinside
    have hlen := length_slice hinside
    have hlt := leNat_lt (slice mem p 4)
    have hback := leBytes_leNat (slice mem p 4)
    rw [hlen] at hlt hback
    set bits := leNat (slice mem p 4) with hbits
    rw [Scalar.value, UInt32.toNat_ofNat_of_lt' (show _ < UInt32.size from hlt), hn, truncateTo_intCast] at htrunc
    split at htrunc
    · rename_i hrange
      have hw : w = n := (Except.ok.inj htrunc).symm
      rw [hw]
      have hwritten : writeF32 (.exact n) = leBytes 4 (Binary32.nearest n) := by
        rw [writeF32, Scalar.bits, UInt32.toNat_ofNat']
        exact leBytes_mod 4 _
      have hzero : slice mem p 4 = [0, 0, 0, 0x80] ↔ bits = 2 ^ 31 := by
        constructor
        · intro h
          rw [hbits, h]
          rfl
        · intro h
          rw [← hback, h]
          decide
      by_cases hneg : bits = 2 ^ 31
      · -- The negative zero is read as zero and written back as the positive one.
        have hnone : n = 0 := by
          rw [hneg] at hn
          have hvalue : Binary32.value (2 ^ 31) = some 0 := by norm_num [Binary32.value, Binary32.magnitude]
          rw [hvalue] at hn
          exact_mod_cast (Option.some.inj hn).symm
        have hpositive : Binary32.nearest ((n : Int) : ℚ) = 0 := by
          rw [hnone]
          exact Binary32.nearest_value (by norm_num) (by norm_num [Binary32.value, Binary32.magnitude]) (by norm_num)
        rw [hwritten, hpositive, hzero.2 hneg]
        exact iff_of_false (by decide) fun hG => hG.1 (hzero.2 hneg)
      · have hnearest : Binary32.nearest ((n : Int) : ℚ) = bits := Binary32.nearest_value hlt hn hneg
        rw [hwritten, hnearest, hback]
        exact iff_of_true rfl ⟨fun h => hneg (hzero.1 h), n, hn, hrange⟩
    · cases htrunc

/-- The fourth component that is scaled when it is written, but not when it is read. -/
theorem undone_normAc6 :
    Undone mem p 2 (i16.read mem p) (fun w => writeShortNormAc6 (.exact w)) (slice mem p 2 = [0, 0]) where
  inside _ h := (i16.read_eq_ok h).1
  reads h _ := i16.read_inside h
  length _ _ h := i16.length_writeRounded h
  prints := by
    intro n h
    obtain ⟨-, hlo, hhi, hwrite⟩ := i16.read_eq_ok h
    have hscaled : writeShortNormAc6 (.exact n) = i16.writeRounded (some ((n * 32767 : Int) : ℚ)) := by
      simp [writeShortNormAc6, IntType.writeNorm, Scalar.value]
    have hbounds : i16.lo = -32768 ∧ i16.hi = 32767 := by decide
    rw [hbounds.1] at hlo
    rw [hbounds.2] at hhi
    have hwrite : i16.write n = slice mem p 2 := hwrite
    rw [hscaled, i16.writeRounded_intCast, ← hwrite, hbounds.1, hbounds.2]
    by_cases hsmall : n ∈ [-1, 0, 1]
    · simp only [List.mem_cons, List.not_mem_nil, or_false] at hsmall
      rcases hsmall with rfl | rfl | rfl <;> decide
    · simp only [List.mem_cons, List.not_mem_nil, or_false, not_or] at hsmall
      rw [if_neg (by omega)]
      have hne : i16.write n ≠ [0, 0] := by
        intro hzero
        have hword : leNat (i16.write n) = 0 := by
          rw [hzero]
          rfl
        rw [IntType.write, leNat_leBytes] at hword
        have hmod : (n % 65536).toNat % 65536 = 0 := hword
        omega
      exact iff_of_false nofun hne

/-- What a normal asks of its fourth component. -/
def NormalWReturns (mem : List UInt8) (p : Int) (t : LayoutType) : Prop :=
  (t = .float4 → FloatFromInt32 mem (p + 12)) ∧ (t = .ushort4 → slice mem (p + 6) 2 = [0, 0])

theorem undone_normal {t : LayoutType}
    (ht : t ∈ [LayoutType.float3, .float4, .color, .ubyte4, .byte4, .ubyte4Norm, .short4Norm, .half4, .byte4E,
      .ushort4])
    (hint : t = .float4 → Inside mem (p + 12) 4 → FloatIntegral mem (p + 12)) (old : Int) :
    Undone mem p t.size (decodeNormal mem p old t) (fun x => encodeNormal x.1 x.2 t) (NormalWReturns mem p t) := by
  have hbyte : ∀ {p}, Undone mem p 3 (readByteNormXyz mem p) writeByteNormXyz True :=
    undone_xyz fun _ => u8.undone_norm (by norm_num)
  have hshort : ∀ {p}, Undone mem p 6 (readShortNormXyz mem p) writeShortNormXyz True :=
    undone_xyz fun _ => i16.undone_norm (by norm_num)
  have hbytes : Undone mem p 4 (do let n ← readByteNormXyz mem p; let w ← u8.read mem (p + 3); pure (n, w))
      (fun x => do let xyz ← writeByteNormXyz x.1; pure (xyz ++ u8.write x.2)) True :=
    (hbyte.seq u8.undone_store).congr (by simp)
  simp only [List.mem_cons, List.not_mem_nil, or_false] at ht
  rcases ht with rfl | rfl | rfl | rfl | rfl | rfl | rfl | rfl | rfl | rfl
  · refine ((undone_xyz fun _ => undone_f32).congr (by simp [NormalWReturns])).map (fun _ => rfl) fun x => ?_
    exact (@undone_xyz mem p _ _ _ fun _ => undone_f32).length x.1
  · have hw : Undone mem (p + 12) 4 _ _ _ := undone_truncated (hint rfl)
    exact Undone.congr (Undone.seq (undone_xyz fun _ => undone_f32) hw) (by simp [NormalWReturns])
  · exact hbytes.congr (by simp [NormalWReturns])
  · exact hbytes.congr (by simp [NormalWReturns])
  · have hthree : ∀ {p}, Undone mem p 3 (readSbyteNormZyx mem p) writeSbyteNormZyx True := by
      intro p
      have hnorm : ∀ p, Undone mem p 1 (i8.readNorm 127 0 mem p) (i8.writeNorm 127 0) True := fun _ =>
        i8.undone_norm (by norm_num)
      refine ((undone_three hnorm).congr (by simp)).map (fun _ => rfl) fun v => ?_
      exact (@undone_three mem p _ _ _ _ _ hnorm).length (v.z, v.y, v.x)
    have hseq : Undone mem p 4 _ _ (True ∧ True) := u8.undone_store.seq hthree
    have hswap : decodeNormal mem p old .byte4
        = (do
          let x ← (do
            let w ← u8.read mem p
            let n ← readSbyteNormZyx mem (p + 1)
            pure (w, n))
          pure (x.2, x.1)) := by
      simp [decodeNormal]
    rw [hswap]
    exact (hseq.congr (by simp [NormalWReturns])).map (fun _ => rfl) fun x => hseq.length (x.2, x.1)
  · exact hbytes.congr (by simp [NormalWReturns])
  · exact (hshort.seq i16.undone_store).congr (by simp [NormalWReturns])
  · refine Undone.congr (Undone.seq (undone_xyz fun _ => u16.undone_norm (by norm_num)) i16.undone_store) ?_
    simp [NormalWReturns]
  · exact hbytes.congr (by simp [NormalWReturns])
  · have hw : Undone mem (p + 6) 2 _ _ _ := undone_normAc6
    exact Undone.congr (Undone.seq (undone_xyz fun _ => i16.undone_norm (by norm_num)) hw) (by simp [NormalWReturns])

/-! ### UV members -/

/-- The pairs that a UV member stores. -/
def LayoutType.uvPairs : LayoutType → Nat
  | .float4 | .ubyte4Norm | .short4 | .half4 => 2
  | _ => 1

/-- The UV types whose components are divided by the factor. -/
def LayoutType.Scaled (t : LayoutType) : Prop := t ∈ [.color, .ubyte4, .byte4, .short2, .half2, .short4, .half4]

instance (t : LayoutType) : Decidable t.Scaled := inferInstanceAs (Decidable (_ ∈ _))

/-- The writer of the components of a UV type. -/
def uvWriter (factor : ℚ) (t : LayoutType) (s : Scalar) : Except SfError (List UInt8) :=
  if t.Scaled then writeScaled factor s else if t = .ubyte4Norm then u8.writeNorm 255 0 s else storeF32 s

section

variable {factor : ℚ} {t : LayoutType}

theorem uvWriter_scaled (h : t.Scaled) : uvWriter factor t = writeScaled factor := by
  funext s
  simp [uvWriter, h]

theorem uvWriter_norm : uvWriter factor .ubyte4Norm = u8.writeNorm 255 0 := by
  funext s
  simp [uvWriter, LayoutType.Scaled]

theorem uvWriter_stored (h : ¬ t.Scaled) (hnorm : t ≠ .ubyte4Norm) : uvWriter factor t = storeF32 := by
  funext s
  simp [uvWriter, h, hnorm]

end

/-- What packing writes for that many pairs. -/
def writePairs (write : Scalar → Except SfError (List UInt8)) : Nat → List Vec2 → Except SfError (List UInt8)
  | 1, [uv] => writeUv write uv
  | 2, [uv, uv'] => do
    let first ← writeUv write uv
    let second ← writeUv write uv'
    pure (first ++ second)
  | _, _ => .error .undefinedBehaviour

/-- The array of a vertex holds these pairs from that index on. -/
def UvsFrom (v : DecodedVertex) (i : Nat) (uvs : List Vec2) : Prop :=
  ∀ k uv, uvs[k]? = some uv → v.uvs[i + k]? = some uv

section

variable {read : Int → Except SfError Scalar} {write : Scalar → Except SfError (List UInt8)} {G : Int → Prop} {n : Nat}

theorem undone_onePair (h : ∀ p, Undone mem p n (read p) write (G p)) :
    Undone mem p (n + n) (do let uv ← readUv read p n; pure [uv]) (writePairs write 1) (G p ∧ G (p + n)) := by
  refine (undone_uv h).map (fun _ => rfl) fun uvs bs hbs => ?_
  match uvs, hbs with
  | [uv], hbs => exact (@undone_uv mem p _ _ _ _ h).length uv bs hbs

theorem undone_twoPairs (h : ∀ p, Undone mem p n (read p) write (G p)) :
    Undone mem p (n + n + (n + n))
      (do let uv ← readUv read p n; let uv' ← readUv read (p + (n + n : Nat)) n; pure [uv, uv'])
      (writePairs write 2) ((G p ∧ G (p + n)) ∧ G (p + (n + n : Nat)) ∧ G (p + (n + n : Nat) + n)) := by
  have hseq := (@undone_uv mem p _ _ _ _ h).seq (@undone_uv mem (p + (n + n : Nat)) _ _ _ _ h)
  have hpair : (do let uv ← readUv read p n; let uv' ← readUv read (p + (n + n : Nat)) n; pure [uv, uv'])
      = (do
        let x ← (do let uv ← readUv read p n; let uv' ← readUv read (p + (n + n : Nat)) n; pure (uv, uv'))
        pure [x.1, x.2]) := by
    simp
  rw [hpair]
  refine hseq.map (fun _ => rfl) fun uvs bs hbs => ?_
  match uvs, hbs with
  | [uv, uv'], hbs => exact hseq.length (uv, uv') bs hbs

end

theorem undone_decodeUv {factor : ℚ} {t : LayoutType}
    (ht : t ∈ [LayoutType.float2, .float3, .float4, .color, .ubyte4, .byte4, .ubyte4Norm, .short2, .half2, .short4,
      .half4]) (hfull : t ≠ .float3) :
    Undone mem p t.size (decodeUv mem p factor t) (writePairs (uvWriter factor t) t.uvPairs)
      (t.Scaled → factor ≠ 0) := by
  have hone : ∀ {t : LayoutType}, t.Scaled → Undone mem p 4 (do let uv ← readUv (readScaled mem factor) p 2; pure [uv])
      (writePairs (uvWriter factor t) 1) (t.Scaled → factor ≠ 0) := by
    intro t hscaled
    rw [uvWriter_scaled hscaled]
    exact (undone_onePair fun _ => undone_scaled).congr (by simp [hscaled])
  have htwo : ∀ {t : LayoutType}, t.Scaled → Undone mem p 8
      (do
        let uv ← readUv (readScaled mem factor) p 2
        let uv' ← readUv (readScaled mem factor) (p + 4) 2
        pure [uv, uv'])
      (writePairs (uvWriter factor t) 2) (t.Scaled → factor ≠ 0) := by
    intro t hscaled
    rw [uvWriter_scaled hscaled]
    exact (undone_twoPairs fun _ => undone_scaled).congr (by simp [hscaled])
  simp only [List.mem_cons, List.not_mem_nil, or_false] at ht
  rcases ht with rfl | rfl | rfl | rfl | rfl | rfl | rfl | rfl | rfl | rfl | rfl
  · exact (undone_onePair fun _ => undone_f32).congr (by simp [LayoutType.Scaled])
  · exact absurd rfl hfull
  · exact (undone_twoPairs fun _ => undone_f32).congr (by simp [LayoutType.Scaled])
  · exact hone (by decide)
  · exact hone (by decide)
  · exact hone (by decide)
  · exact (undone_twoPairs fun _ => u8.undone_norm (by norm_num)).congr (by simp [LayoutType.Scaled])
  · exact hone (by decide)
  · exact hone (by decide)
  · exact htwo (by decide)
  · exact htwo (by decide)

/-- Packing fetches the pairs from the array. -/
theorem encodeUv_from {factor : ℚ} {t : LayoutType} {v : DecodedVertex} {i : Nat} {uvs : List Vec2}
    (ht : t ∈ [LayoutType.float2, .float3, .float4, .color, .ubyte4, .byte4, .ubyte4Norm, .short2, .half2, .short4,
      .half4]) (hfull : t ≠ .float3) (hlen : uvs.length = t.uvPairs) (hfrom : UvsFrom v i uvs) :
    encodeUv v factor i t
      = (writePairs (uvWriter factor t) t.uvPairs uvs).map fun bs => (bs, i + t.uvPairs) := by
  have hat : ∀ k uv, uvs[k]? = some uv → v.uvAt (i + k) = .ok uv := by
    intro k uv hk
    rw [DecodedVertex.uvAt, hfrom k uv hk]
  have hone : ∀ (write : Scalar → Except SfError (List UInt8)) (uv : Vec2),
      (do let xy ← writeUv write uv; pure (xy, i + 1)) = (writePairs write 1 [uv]).map fun bs => (bs, i + 1) := by
    intro write uv
    rw [writePairs]
    cases writeUv write uv <;> rfl
  have htwo : ∀ (write : Scalar → Except SfError (List UInt8)) (uv uv' : Vec2), v.uvAt (i + 1) = .ok uv' →
      writeUvs v i write uv = (writePairs write 2 [uv, uv']).map fun bs => (bs, i + 2) := by
    intro write uv uv' hnext
    rw [writeUvs, writePairs, hnext]
    cases writeUv write uv with
    | error e => rfl
    | ok first => cases hsecond : writeUv write uv' <;> simp [bind, Except.bind, pure, Except.pure, hsecond, Except.map]
  simp only [List.mem_cons, List.not_mem_nil, or_false] at ht
  match uvs, hlen with
  | [], hlen => exact absurd hlen (by rcases ht with rfl | rfl | rfl | rfl | rfl | rfl | rfl | rfl | rfl | rfl | rfl <;> decide)
  | [uv], hlen =>
    have hfirst : v.uvAt i = .ok uv := hat 0 uv rfl
    rw [encodeUv, hfirst]
    rcases ht with rfl | rfl | rfl | rfl | rfl | rfl | rfl | rfl | rfl | rfl | rfl <;> cases hlen
    · rw [uvWriter_stored (by decide) (by decide)]
      exact hone storeF32 uv
    · exact absurd rfl hfull
    all_goals
      rw [uvWriter_scaled (by decide)]
      exact hone (writeScaled factor) uv
  | [uv, uv'], hlen =>
    have hfirst : v.uvAt i = .ok uv := hat 0 uv rfl
    have hsecond : v.uvAt (i + 1) = .ok uv' := hat 1 uv' rfl
    rw [encodeUv, hfirst]
    rcases ht with rfl | rfl | rfl | rfl | rfl | rfl | rfl | rfl | rfl | rfl | rfl <;> cases hlen
    · rw [uvWriter_stored (by decide) (by decide)]
      exact htwo storeF32 uv uv' hsecond
    · rw [uvWriter_norm]
      exact htwo (u8.writeNorm 255 0) uv uv' hsecond
    all_goals
      rw [uvWriter_scaled (by decide)]
      exact htwo (writeScaled factor) uv uv' hsecond
  | _ :: _ :: _ :: _, hlen =>
    rcases ht with rfl | rfl | rfl | rfl | rfl | rfl | rfl | rfl | rfl | rfl | rfl <;> cases hlen

end SoulsFormats.Flver
