import SoulsFormats.Compression.DcxEdge

set_option autoImplicit false

/-! # What the DCX encoder writes is decoded

The size of a compressed payload is cut to the 32 bits of its field. The encoder does not check it, so that
a payload of `2 ^ 32` bytes or more is lost; every other text comes back with its info. -/

namespace SoulsFormats

open Bytes Fallible

/-- The infos whose container says all of what they say. -/
def DcxCompressionInfo.IsKept : DcxCompressionInfo → Prop
  | dcpEdge => True
  | dcpDflt => True
  | dcxEdge => True
  | dcxDflt .. => True
  | dcxKrak _ oodleCompressorType => oodleCompressorType = oodleKraken
  | dcxZstd _ => True
  | unknown => False
  | none => False
  | zlib => False

section

variable {codecs : Codecs} {x out : List UInt8} {info : DcxCompressionInfo} {heap heap' : Heap}

theorem dcxCompress_decodes (hinv : codecs.Inverts) (hx : x.length < 2 ^ 32 - 16) (hinfo : info.IsKept)
    (hok : (dcxCompressToBuffer codecs x info heap).1 = .ok out) : DcxDecodes codecs x info out := by
  have hx' : x.length < 2 ^ 32 := hx.trans_le (Nat.sub_le _ _)
  cases info with
  | unknown => cases hinfo
  | none => cases hinfo
  | zlib => cases hinfo
  | dcpEdge => exact wrapDcpEdge_decodes hx hok
  | dcpDflt => exact wrapDcpDflt_decodes hinv hx' hok
  | dcxEdge => exact wrapDcxEdge_decodes hx hok
  | dcxDflt => exact wrapDcxDflt_decodes hinv hx' hok
  | dcxKrak level compressor =>
      cases hinfo
      exact wrapDcxKrak_decodes hinv hx' hok
  | dcxZstd => exact wrapDcxZstd_decodes hinv hx' hok

/-- **A text comes back from its container, with its info, exactly if its compressed payload fits.** -/
theorem dcx_is_read_back_iff (hinv : codecs.Inverts) (hx : x.length < 2 ^ 32 - 16) (hinfo : info.IsKept)
    (hok : (dcxCompressToBuffer codecs x info heap).1 = .ok out) (hcalm : heap'.Calm) :
    ((dcxSniff out heap').1 = .ok info.type ∧
      (dcxDecompressFromBuffer codecs out heap').1 = .ok (x, info)) ↔ DcxPayloadFits codecs x info := by
  obtain ⟨htype, hdecode⟩ := dcxCompress_decodes hinv hx hinfo hok
  rw [dcxSniff_run, htype]
  exact (and_iff_right rfl).trans (hdecode heap' hcalm)

end

/-! ## A text that is stored -/

/-- A codec that stores a text in a frame of 32 bytes, which is what becomes of a text that cannot be
    compressed. -/
def storingCodecs : Codecs :=
  { failingCodecs with
    zstdBound := fun n => n + 32
    zstdCompress := fun _ x cap => if x.length + 32 ≤ cap then some (x ++ List.replicate 32 0) else none
    zstdDecompress := fun z n => if z.length = n + 32 then some (z.take n) else none }

theorem storingCodecs_inverts : storingCodecs.Inverts where
  deflate_le := by
    intro level x avail raw h
    cases h
  inflate_deflate := by
    intro level x avail raw h
    cases h
  zstd := by
    intro level x cap z h
    simp only [storingCodecs] at h ⊢
    split at h
    · cases h
      simp
    · cases h
  zstd_part := by
    intro level x cap z h _ n hn
    simp only [storingCodecs] at h ⊢
    split at h
    · cases h
      rw [List.length_append, List.length_replicate] at hn
      rw [if_neg]
      · simp
      · simp only [List.length_take, List.length_append, List.length_replicate]
        omega
    · cases h
  oodle := by
    intro compressor level x h
    exact absurd rfl h
  oodle_part := by
    intro compressor level x h
    cases h

/-- Five bytes in a container of zstd, and in a chunk of an EDGE container, which is stored as it is. -/
theorem dcx_text_is_read_back :
    (∃ out, (dcxCompressToBuffer storingCodecs [3, 1, 4, 1, 5] (.dcxZstd 15) []).1 = .ok out ∧
      (dcxSniff out []).1 = .ok .dcxZstd ∧
      (dcxDecompressFromBuffer storingCodecs out []).1 = .ok ([3, 1, 4, 1, 5], .dcxZstd 15)) ∧
    ∃ out, (dcxCompressToBuffer storingCodecs [3, 1, 4, 1, 5] .dcxEdge []).1 = .ok out ∧
      (dcxSniff out []).1 = .ok .dcxEdge ∧
      (dcxDecompressFromBuffer storingCodecs out []).1 = .ok ([3, 1, 4, 1, 5], .dcxEdge) := by
  have hfits : DcxPayloadFits storingCodecs [3, 1, 4, 1, 5] (.dcxZstd 15) := by
    intro z hz
    cases hz
    decide
  have hlen : [3, 1, 4, 1, 5].length < 2 ^ 32 - 16 := by decide
  have hzstd : (DcxCompressionInfo.dcxZstd 15).IsKept := trivial
  have hedge : DcxCompressionInfo.dcxEdge.IsKept := trivial
  obtain ⟨z, hz⟩ : ∃ out, (dcxCompressToBuffer storingCodecs [3, 1, 4, 1, 5] (.dcxZstd 15) []).1 = .ok out := ⟨_, rfl⟩
  obtain ⟨e, he⟩ : ∃ out, (dcxCompressToBuffer storingCodecs [3, 1, 4, 1, 5] .dcxEdge []).1 = .ok out := ⟨_, rfl⟩
  exact ⟨⟨z, hz, (dcx_is_read_back_iff storingCodecs_inverts hlen hzstd hz Heap.calm_nil).2 hfits⟩,
    e, he, (dcx_is_read_back_iff storingCodecs_inverts hlen hedge he Heap.calm_nil).2 trivial⟩

/-- The frame of a text of `2 ^ 32 - 17` bytes has 15 bytes more than its size can say. -/
theorem dcx_large_payload_is_not_read_back :
    ¬ ∀ (codecs : Codecs) (x out : List UInt8) (info : DcxCompressionInfo) (heap heap' : Heap),
      codecs.Inverts → x.length < 2 ^ 32 - 16 → info.IsKept →
      (dcxCompressToBuffer codecs x info heap).1 = .ok out → heap'.Calm →
      (dcxSniff out heap').1 = .ok info.type ∧
        (dcxDecompressFromBuffer codecs out heap').1 = .ok (x, info) := by
  intro h
  obtain ⟨x, hx⟩ : ∃ x : List UInt8, x.length = 2 ^ 32 - 17 :=
    ⟨List.replicate (2 ^ 32 - 17) 0, List.length_replicate ..⟩
  have hsmall : x.length < 2 ^ 32 - 16 := by omega
  have hinfo : (DcxCompressionInfo.dcxZstd 15).IsKept := trivial
  have hz : storingCodecs.zstdCompress (15 : UInt8).toNat x (storingCodecs.zstdBound x.length)
      = some (x ++ List.replicate 32 0) := if_pos (le_refl _)
  have hok : (dcxCompressToBuffer storingCodecs x (.dcxZstd 15) []).1
      = .ok (wrapDcxHeader (dcxHeader (.dcxZstd 15)) x.length (x ++ List.replicate 32 0).length
        ++ (x ++ List.replicate 32 0)) := by
    unfold dcxCompressToBuffer wrapDcxPayload zstdCompress
    simp only [hz]
    rfl
  have hback := (h storingCodecs x _ (.dcxZstd 15) [] [] storingCodecs_inverts hsmall hinfo hok
    Heap.calm_nil).2
  obtain ⟨-, hdecode⟩ := dcxCompress_decodes storingCodecs_inverts hsmall hinfo hok
  have hfits := (hdecode [] Heap.calm_nil).1 hback _ hz
  rw [List.length_append, List.length_replicate] at hfits
  omega

end SoulsFormats
